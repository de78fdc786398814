import MagnumOpus.Aggregator.Exchange
import MagnumOpus.Lib.EventMachine
import MagnumOpus.Lib.JsonDecode

/-!
# The gateway's hub

The hub takes every message of the channels `orderbook:*` and `candles1s:*` and hands it to the
clients that asked for its symbol.  Order books go out as binary frames and the last one of each
symbol is kept for new subscribers; candles go out as they came, with a type.  Each call of the
hub decides under its lock what is sent to whom, so a call is one step; a client whose send buffer
is full gets nothing.
-/

namespace MagnumOpus
namespace Gateway

open EventMachine JsonDecode

/-! ### What the publishers publish -/

/-- The name of an exchange adapter. -/
structure Exchange where
  name : String
  no_colon : ':' ∉ name.toList

/-- The other fields of a candle's message. -/
structure Features where
  fields : List (String × JsonValue)
  no_exchange : ∀ f ∈ fields, f.1 ≠ "exchange"

/-- A message of the aggregator's `Publisher.Publish` or the candle service's `Publish1sBar`. -/
inductive Publication
  | orderbook (exch : Exchange) (raw : String) (tsNs : Int64) (bids asks : List (List String))
  | candle (exch : Exchange) (symbol : String) (features : Features)

namespace Publication

/-- The exchange the message is about. -/
def exchange : Publication → Exchange
  | orderbook exch _ _ _ _ => exch
  | candle exch _ _ => exch

/-- The symbol in the channel: the aggregator's is normalised. -/
def symbol : Publication → String
  | orderbook exch raw _ _ _ => Aggregator.normalize exch.name raw
  | candle _ symbol _ => symbol

/-- The first part of the channel. -/
def kind : Publication → String
  | orderbook _ _ _ _ _ => "orderbook"
  | candle _ _ _ => "candles1s"

/-- `{kind}:{exchange}:{symbol}`. -/
def channel (p : Publication) : String := p.kind ++ ":" ++ p.exchange.name ++ ":" ++ p.symbol

/-- The price levels of a book in JSON. -/
def levels (side : List (List String)) : JsonValue :=
  .arr (side.map fun pair => .arr (pair.map .str))

/-- The JSON object, with the fields that are read further on. -/
def payload : Publication → JsonValue
  | orderbook exch raw tsNs bids asks =>
    .obj [("ts_ns", .num (Strconv.formatInt tsNs)), ("exchange", .str exch.name),
      ("symbol", .str (Aggregator.normalize exch.name raw)), ("bids", levels bids),
      ("asks", levels asks)]
  | candle exch symbol features =>
    .obj (("exchange", .str exch.name) :: ("symbol", .str symbol) :: features.fields)

end Publication

/-! ### Frames -/

/-- The number formats of the binary frame. -/
structure Floats where
  F64 : Type
  F32 : Type
  parseFloat : String → Option F64
  toFloat32 : F64 → F32
  float64 : Int64 → F64

/-- What a client receives: a binary order book, or the fields of a JSON text. -/
inductive Frame (N : Floats)
  | snapshot (tsNs : N.F64) (bids asks : List (N.F64 × N.F32))
  | text (fields : List (String × JsonValue))

/-- `parseLevels`: pairs that are malformed are left out. -/
def parseLevels (N : Floats) (side : List (List String)) : List (N.F64 × N.F32) :=
  side.filterMap fun
    | price :: size :: _ => do some (← N.parseFloat price, N.toFloat32 (← N.parseFloat size))
    | _ => none

/-- Decodes a `[][]string`. -/
def toLevels (v : JsonValue) : Option (List (List String)) :=
  v.toSlice.bind fun side => side.mapM fun pair => pair.toSlice.bind fun texts =>
    texts.mapM JsonValue.toText

/-- `EncodeBinary`.  The layout has a type byte, the time, the two counts and the levels. -/
def encodeBinary (N : Floats) (payload : JsonValue) : Option (Frame N) := do
  let fields ← payload.toFields
  let tsNs ← fieldAs "ts_ns" 0 JsonValue.toInt64 fields
  let rawBids ← fieldAs "bids" [] toLevels fields
  let rawAsks ← fieldAs "asks" [] toLevels fields
  let bids := parseLevels N rawBids
  let asks := parseLevels N rawAsks
  if 0xFFFF < bids.length ∨ 0xFFFF < asks.length then none
  else some (.snapshot (N.float64 tsNs) bids asks)

/-- `InjectType`. -/
def injectType (N : Floats) (msgType : String) : JsonValue → Option (Frame N)
  | .obj fields => some (.text (("type", .str msgType) :: fields.filter (·.1 ≠ "type")))
  | _ => none

/-- The exchange a frame names: of equal keys the last one counts. -/
def Frame.exchange {N : Floats} : Frame N → Option String
  | .snapshot _ _ _ => none
  | .text fields => (fields.reverse.lookup "exchange").bind JsonValue.toText

/-! ### The hub -/

/-- `Hub`.  A symbol without subscribers has no entry: entries are made with a member and deleted
with their last one. -/
structure Hub (N : Floats) (C : Type) where
  senders : List C
  bySymbol : String → List C
  lastSnap : String → Option (Frame N)

/-- A frame handed to a client, for the subscription to a symbol. -/
structure Sent (N : Floats) (C : Type) where
  client : C
  symbol : String
  frame : Frame N

/-- A call of the hub. -/
inductive Action (C : Type)
  | register (c : C)
  | unregister (c : C)
  | subscribe (c : C) (symbol : String)
  | unsubscribe (c : C) (symbol : String)
  | publish (p : Publication)

/-- A call, and the clients whose send buffer has no room at that time. -/
structure Event (C : Type) where
  act : Action C
  full : C → Bool

/-- The text up to the first `:`, and the text after it. -/
def cut (text : List Char) : Option (List Char × List Char) :=
  if ':' ∈ text then some (text.takeWhile (· ≠ ':'), (text.dropWhile (· ≠ ':')).tail) else none

/-- `strings.SplitN(channel, ":", 3)`, when it has three parts. -/
def splitChannel (channel : String) : Option (String × String × String) := do
  let (first, rest) ← cut channel.toList
  let (second, third) ← cut rest
  some (String.ofList first, String.ofList second, String.ofList third)

namespace Hub

variable {N : Floats} {C : Type} [DecidableEq C]

/-- `NewHub`. -/
def new : Hub N C := ⟨[], fun _ => [], fun _ => none⟩

/-- `RegisterSender`. -/
def registerSender (h : Hub N C) (c : C) : Hub N C := { h with senders := h.senders.insert c }

/-- `UnregisterSender`: symbols that lose their last subscriber lose their snapshot too. -/
def unregisterSender (h : Hub N C) (c : C) : Hub N C where
  senders := h.senders.erase c
  bySymbol S := (h.bySymbol S).erase c
  lastSnap S := if h.bySymbol S ≠ [] ∧ (h.bySymbol S).erase c = [] then none else h.lastSnap S

/-- `Subscribe`, with the snapshot it sends. -/
def subscribe (h : Hub N C) (c : C) (symbol : String) : Hub N C × Option (Frame N) :=
  ({ h with bySymbol := Function.update h.bySymbol symbol ((h.bySymbol symbol).insert c) },
    h.lastSnap symbol)

/-- `Unsubscribe`. -/
def unsubscribe (h : Hub N C) (c : C) (symbol : String) : Hub N C :=
  if h.bySymbol symbol = [] then h
  else
    { h with
      bySymbol := Function.update h.bySymbol symbol ((h.bySymbol symbol).erase c)
      lastSnap := if (h.bySymbol symbol).erase c = [] then Function.update h.lastSnap symbol none
        else h.lastSnap }

/-- A frame for every subscriber of a symbol. -/
def toSubscribers (h : Hub N C) (symbol : String) (frame : Frame N) : List (Sent N C) :=
  (h.bySymbol symbol).map fun c => ⟨c, symbol, frame⟩

/-- `routeOrderbook`. -/
def routeOrderbook (h : Hub N C) (symbol : String) (payload : JsonValue) :
    Hub N C × List (Sent N C) :=
  match encodeBinary N payload with
  | none => (h, [])
  | some encoded =>
    ({ h with lastSnap := Function.update h.lastSnap symbol (some encoded) },
      h.toSubscribers symbol encoded)

/-- `routeCandles1s`. -/
def routeCandles1s (h : Hub N C) (symbol : String) (payload : JsonValue) : List (Sent N C) :=
  match injectType N "candles1s" payload with
  | none => []
  | some tagged => h.toSubscribers symbol tagged

/-- `Route`: the exchange in the channel is not looked at. -/
def route (h : Hub N C) (channel : String) (payload : JsonValue) : Hub N C × List (Sent N C) :=
  match splitChannel channel with
  | none => (h, [])
  | some (first, _, symbol) =>
    if first = "orderbook" then h.routeOrderbook symbol payload
    else if first = "candles1s" then (h, h.routeCandles1s symbol payload)
    else (h, [])

/-- What a call sends before full buffers are looked at. -/
def call (h : Hub N C) : Action C → Hub N C × List (Sent N C)
  | .register c => (h.registerSender c, [])
  | .unregister c => (h.unregisterSender c, [])
  | .subscribe c symbol =>
    ((h.subscribe c symbol).1, ((h.subscribe c symbol).2.map fun snap => ⟨c, symbol, snap⟩).toList)
  | .unsubscribe c symbol => (h.unsubscribe c symbol, [])
  | .publish p => h.route p.channel p.payload

/-- One call; a client whose buffer is full is passed over. -/
def step : Step (Hub N C) (Event C) (Sent N C) := fun h e =>
  ((h.call e.act).1, (h.call e.act).2.filter fun d => !e.full d.client)

end Hub

/-! ### Channels and payloads of publications -/

theorem cut_append {before after : List Char} (h : ':' ∉ before) :
    cut (before ++ ':' :: after) = some (before, after) := by
  have hpass : ∀ c ∈ before, decide (c ≠ ':') = true := by
    intro c hc
    rw [decide_eq_true_iff]
    rintro rfl
    exact h hc
  unfold cut
  rw [if_pos (by simp), List.takeWhile_append_of_pos hpass, List.dropWhile_append_of_pos hpass]
  simp

theorem splitChannel_channel (p : Publication) :
    splitChannel p.channel = some (p.kind, p.exchange.name, p.symbol) := by
  have hkind : ':' ∉ p.kind.toList := by
    cases p with
    | orderbook exch raw tsNs bids asks =>
        show ':' ∉ "orderbook".toList
        decide
    | candle exch symbol features =>
        show ':' ∉ "candles1s".toList
        decide
  have htext : p.channel.toList
      = p.kind.toList ++ ':' :: (p.exchange.name.toList ++ ':' :: p.symbol.toList) := by
    simp [Publication.channel]
  unfold splitChannel
  rw [htext, cut_append hkind]
  simp [cut_append p.exchange.no_colon]

/-- The frame the hub makes of a publication. -/
def Publication.frame (N : Floats) : Publication → Option (Frame N)
  | .orderbook exch raw tsNs bids asks =>
    encodeBinary N (Publication.orderbook exch raw tsNs bids asks).payload
  | .candle exch symbol features =>
    injectType N "candles1s" (Publication.candle exch symbol features).payload

theorem exchange_of_candle {N : Floats} {exch : Exchange} {symbol : String} {features : Features}
    {frame : Frame N} (h : (Publication.candle exch symbol features).frame N = some frame) :
    frame.exchange = some exch.name := by
  unfold Publication.frame Publication.payload injectType at h
  cases h
  have hrest : ((features.fields.filter (·.1 ≠ "type")).reverse).lookup "exchange" = none := by
    rw [List.lookup_eq_none_iff]
    intro f hf
    have hmem : f ∈ features.fields := List.mem_of_mem_filter (List.mem_reverse.1 hf)
    simpa using Ne.symm (features.no_exchange f hmem)
  have hfields : (("exchange", JsonValue.str exch.name) :: ("symbol", .str symbol) ::
      features.fields).filter (·.1 ≠ "type")
      = ("exchange", .str exch.name) :: ("symbol", .str symbol) ::
        features.fields.filter (·.1 ≠ "type") := by
    simp
  unfold Frame.exchange
  simp only [hfields, List.reverse_cons, List.lookup_append, hrest]
  rfl

theorem field_cons (name key : String) (v : JsonValue) (fields : List (String × JsonValue)) :
    field name ((key, v) :: fields)
      = (field name fields).or (if foldCase key = foldCase name then some v else none) := by
  unfold field
  rw [List.reverse_cons, List.find?_append, List.find?_singleton]
  by_cases h : foldCase key = foldCase name
  · cases hrest : fields.reverse.find? (fun f => foldCase f.1 = foldCase name) <;> simp [h]
  · cases hrest : fields.reverse.find? (fun f => foldCase f.1 = foldCase name) <;> simp [h]

theorem fieldAs_skip {α : Type} {name : String} (zero : α) (decode : JsonValue → Option α)
    (hexch : foldCase "exchange" ≠ foldCase name) (hsym : foldCase "symbol" ≠ foldCase name)
    (first : String × JsonValue) (exch sym : JsonValue) (rest : List (String × JsonValue)) :
    fieldAs name zero decode (first :: ("exchange", exch) :: ("symbol", sym) :: rest)
      = fieldAs name zero decode (first :: rest) := by
  obtain ⟨key, v⟩ := first
  unfold fieldAs
  rw [field_cons, field_cons, field_cons, field_cons, if_neg hexch, if_neg hsym, Option.or_none,
    Option.or_none]

theorem mapM_map_of_inverse {α β : Type} {f : α → β} {g : β → Option α}
    (h : ∀ a, g (f a) = some a) (l : List α) : (l.map f).mapM g = some l := by
  induction l with
  | nil => rfl
  | cons a l ih =>
      rw [List.map_cons, List.mapM_cons, h, ih]
      rfl

theorem toLevels_levels (side : List (List String)) :
    toLevels (Publication.levels side) = some side := by
  unfold toLevels Publication.levels
  apply mapM_map_of_inverse
  intro pair
  exact mapM_map_of_inverse (g := JsonValue.toText) (fun _ => rfl) pair

/-- A book's frame: the time and the levels, and nothing of the exchange or the symbol. -/
theorem frame_orderbook (N : Floats) (exch : Exchange) (raw : String) (tsNs : Int64)
    (bids asks : List (List String)) :
    (Publication.orderbook exch raw tsNs bids asks).frame N
      = if 0xFFFF < (parseLevels N bids).length ∨ 0xFFFF < (parseLevels N asks).length then none
        else some (.snapshot (N.float64 tsNs) (parseLevels N bids) (parseLevels N asks)) := by
  have hts : fieldAs "ts_ns" 0 JsonValue.toInt64 [("ts_ns", .num (Strconv.formatInt tsNs)),
      ("exchange", .str exch.name), ("symbol", .str (Aggregator.normalize exch.name raw)),
      ("bids", Publication.levels bids), ("asks", Publication.levels asks)] = some tsNs := by
    rw [fieldAs_skip 0 _ (by decide) (by decide)]
    unfold fieldAs
    rw [field_cons, field_cons, field_cons, if_neg (by decide), if_neg (by decide), if_pos rfl]
    show (Strconv.readInt (Strconv.formatInt tsNs)).toOption = some tsNs
    rw [Strconv.readInt_formatInt]
    rfl
  have hbids : fieldAs "bids" [] toLevels [("ts_ns", .num (Strconv.formatInt tsNs)),
      ("exchange", .str exch.name), ("symbol", .str (Aggregator.normalize exch.name raw)),
      ("bids", Publication.levels bids), ("asks", Publication.levels asks)] = some bids := by
    rw [fieldAs_skip [] _ (by decide) (by decide)]
    unfold fieldAs
    rw [field_cons, field_cons, field_cons, if_neg (by decide), if_pos rfl, if_neg (by decide)]
    exact toLevels_levels bids
  have hasks : fieldAs "asks" [] toLevels [("ts_ns", .num (Strconv.formatInt tsNs)),
      ("exchange", .str exch.name), ("symbol", .str (Aggregator.normalize exch.name raw)),
      ("bids", Publication.levels bids), ("asks", Publication.levels asks)] = some asks := by
    rw [fieldAs_skip [] _ (by decide) (by decide)]
    unfold fieldAs
    rw [field_cons, field_cons, field_cons, if_pos rfl]
    exact toLevels_levels asks
  show encodeBinary N _ = _
  simp only [encodeBinary, Publication.payload, JsonValue.toFields, Option.bind_eq_bind,
    Option.bind_some, hts, hbids, hasks]

/-- A book of at most 65535 levels a side can be encoded. -/
theorem frame_of_depth (N : Floats) (exch : Exchange) (raw : String) (tsNs : Int64)
    {bids asks : List (List String)} (hbids : bids.length ≤ 0xFFFF)
    (hasks : asks.length ≤ 0xFFFF) :
    (Publication.orderbook exch raw tsNs bids asks).frame N
      = some (.snapshot (N.float64 tsNs) (parseLevels N bids) (parseLevels N asks)) := by
  have hfits : ∀ side : List (List String), side.length ≤ 0xFFFF →
      ¬ 0xFFFF < (parseLevels N side).length := by
    intro side hside
    have hle : (parseLevels N side).length ≤ side.length := List.length_filterMap_le _ side
    omega
  rw [frame_orderbook, if_neg]
  rintro (h | h)
  · exact hfits bids hbids h
  · exact hfits asks hasks h

end Gateway
end MagnumOpus
