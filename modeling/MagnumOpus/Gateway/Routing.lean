import MagnumOpus.Gateway.Codec

/-! # Routing on bytes

`Hub.Route` (`hub.go`) takes any channel and any payload.  It returns, leaves the hub as it is when
the payload is rejected, and sends the frame of an order book to the subscribers of the symbol,
with one exception: the text `null` on a channel of candles makes it panic (`routed_iff`).

On the books of the aggregator the hub in bytes does what the hub of frames does
(`decoded_route`). -/

namespace MagnumOpus.Gateway

open Codec JsonScan

/-- `Hub`, with frames as bytes. -/
structure WireHub (C : Type) where
  senders : List C
  bySymbol : String → List C
  lastSnap : String → Option Bytes

inductive MessageType where
  | binary
  | text
deriving DecidableEq, Repr

/-- A call of `Send`. -/
structure Delivery (C : Type) where
  client : C
  typ : MessageType
  data : Bytes

namespace WireHub

variable (F : Formats) {C : Type}

def new : WireHub C := ⟨[], fun _ => [], fun _ => none⟩

/-- A message for every subscriber of a symbol. -/
def toTargets (h : WireHub C) (symbol : String) (typ : MessageType) (data : Bytes) :
    List (Delivery C) :=
  (h.bySymbol symbol).map fun c => ⟨c, typ, data⟩

/-- The hub with a snapshot of a symbol. -/
def cache (h : WireHub C) (symbol : String) (encoded : Bytes) : WireHub C :=
  { h with lastSnap := Function.update h.lastSnap symbol (some encoded) }

/-- The hub afterwards and what it has sent, unless it panics. -/
def routeOrderbook (h : WireHub C) (symbol : String) (payload : Bytes) :
    Option (WireHub C × List (Delivery C)) :=
  match Codec.encodeBinary F payload with
  | .error .panicked => none
  | .error (.rejected _) => some (h, [])
  | .ok encoded => some (h.cache symbol encoded, h.toTargets symbol .binary encoded)

def routeCandles1s (h : WireHub C) (symbol : String) (payload : Bytes) :
    Option (WireHub C × List (Delivery C)) :=
  match Codec.injectType F payload "candles1s" with
  | .error .panicked => none
  | .error (.rejected _) => some (h, [])
  | .ok tagged => some (h, h.toTargets symbol .text tagged)

def route (h : WireHub C) (channel : String) (payload : Bytes) :
    Option (WireHub C × List (Delivery C)) :=
  match splitChannel channel with
  | none => some (h, [])
  | some (first, _, symbol) =>
      if first = "orderbook" then h.routeOrderbook F symbol payload
      else if first = "candles1s" then h.routeCandles1s F symbol payload
      else some (h, [])

end WireHub

/-! ### What routing is to do -/

section

variable (F : Formats) {C : Type}

/-- The payload is a book whose sides fit the counts of a frame. -/
structure IsBook (payload : Bytes) (dp : DepthPayload) : Prop where
  read : unmarshalDepth payload = some dp
  bids : (Codec.parseLevels F (texts dp.bids)).length ≤ 0xFFFF
  asks : (Codec.parseLevels F (texts dp.asks)).length ≤ 0xFFFF

/-- The frame has the length and the counts of the levels that can be parsed, and is read as these
levels in their order. -/
structure BookFrame (dp : DepthPayload) (frame : Bytes) : Prop where
  bidCount : Codec.bidCount frame = (Codec.parseLevels F (texts dp.bids)).length
  askCount : Codec.askCount frame = (Codec.parseLevels F (texts dp.asks)).length
  length : frame.length = 13 + 12 * (Codec.bidCount frame + Codec.askCount frame)
  levels : readFrame F frame = some (.snapshot (F.float64 dp.tsNs)
    ((Codec.parseLevels F (texts dp.bids)).map (LevelEntry.wire F))
    ((Codec.parseLevels F (texts dp.asks)).map (LevelEntry.wire F)))

/-- The payload is none for the channel, or the channel is none of the hub's. -/
inductive Rejected (channel : String) (payload : Bytes) : Prop
  | channel (h : ∀ exch symbol, splitChannel channel ≠ some ("orderbook", exch, symbol) ∧
      splitChannel channel ≠ some ("candles1s", exch, symbol))
  | book {exch symbol : String} (hsplit : splitChannel channel = some ("orderbook", exch, symbol))
      (h : ∀ dp, ¬ IsBook F payload dp)
  | candle {exch symbol : String} (hsplit : splitChannel channel = some ("candles1s", exch, symbol))
      (h : ∀ m, unmarshalMap F payload = some (some m) →
        F.marshal (m.insert "type" (.str "candles1s")) = none)

/-- What routing a message is to do. -/
structure Routed (h : WireHub C) (channel : String) (payload : Bytes) : Prop where
  returns : ∃ h' sent, h.route F channel payload = some (h', sent)
  rejected : Rejected F channel payload → h.route F channel payload = some (h, [])
  accepted : ∀ exch symbol dp, splitChannel channel = some ("orderbook", exch, symbol) →
    IsBook F payload dp → ∃ frame, BookFrame F dp frame ∧
      h.route F channel payload =
        some (h.cache symbol frame, h.toTargets symbol .binary frame)

/-- The text `null` on a channel of candles. -/
def NullCandle (channel : String) (payload : Bytes) : Prop :=
  (∃ exch symbol, splitChannel channel = some ("candles1s", exch, symbol)) ∧ IsNull payload

variable {F}

theorem WireHub.route_orderbook {h : WireHub C} {channel exch symbol : String} {payload : Bytes}
    (hsplit : splitChannel channel = some ("orderbook", exch, symbol)) :
    h.route F channel payload = h.routeOrderbook F symbol payload := by
  rw [WireHub.route, hsplit]
  exact if_pos rfl

theorem WireHub.route_candles1s {h : WireHub C} {channel exch symbol : String} {payload : Bytes}
    (hsplit : splitChannel channel = some ("candles1s", exch, symbol)) :
    h.route F channel payload = h.routeCandles1s F symbol payload := by
  rw [WireHub.route, hsplit]
  exact (if_neg (by decide)).trans (if_pos rfl)

theorem WireHub.route_dropped {h : WireHub C} {channel : String} {payload : Bytes}
    (hdrop : ∀ exch symbol, splitChannel channel ≠ some ("orderbook", exch, symbol) ∧
      splitChannel channel ≠ some ("candles1s", exch, symbol)) :
    h.route F channel payload = some (h, []) := by
  unfold WireHub.route
  split
  · rfl
  · next first exch symbol hsplit =>
      rw [hsplit] at hdrop
      rw [if_neg, if_neg]
      · rintro rfl
        exact (hdrop exch symbol).2 rfl
      · rintro rfl
        exact (hdrop exch symbol).1 rfl

end

/-! ### What it does -/

section

variable {F : Formats} {C : Type} {h : WireHub C} {channel : String} {payload : Bytes}

theorem bookFrame_frameBytes {dp : DepthPayload} (hbook : IsBook F payload dp) :
    BookFrame F dp (frameBytes F dp.tsNs (Codec.parseLevels F (texts dp.bids))
      (Codec.parseLevels F (texts dp.asks))) where
  bidCount := bidCount_frameBytes F dp.tsNs hbook.bids
  askCount := askCount_frameBytes F dp.tsNs hbook.asks
  length := by
    rw [bidCount_frameBytes F dp.tsNs hbook.bids, askCount_frameBytes F dp.tsNs hbook.asks,
      length_frameBytes]
  levels := readFrame_frameBytes F dp.tsNs hbook.bids hbook.asks

theorem encodeBinary_of_isBook {dp : DepthPayload} (hbook : IsBook F payload dp) :
    ∃ frame, BookFrame F dp frame ∧ Codec.encodeBinary F payload = .ok frame :=
  ⟨_, bookFrame_frameBytes hbook,
    (encodeBinary_eq_ok_iff F payload _).mpr ⟨dp, hbook.read, hbook.bids, hbook.asks, rfl⟩⟩

theorem encodeBinary_of_not_isBook (hbook : ∀ dp, ¬ IsBook F payload dp) :
    ∃ err, Codec.encodeBinary F payload = .error (.rejected err) := by
  cases hencode : Codec.encodeBinary F payload with
  | ok frame =>
      obtain ⟨dp, hread, hbids, hasks, -⟩ := (encodeBinary_eq_ok_iff F payload frame).mp hencode
      exact absurd ⟨hread, hbids, hasks⟩ (hbook dp)
  | error fault =>
      cases fault with
      | rejected err => exact ⟨err, rfl⟩
      | panicked => exact absurd hencode (encodeBinary_ne_panicked F payload)

theorem injectType_of_marshal_eq_none {msgType : String} (hnull : ¬ IsNull payload)
    (hmap : ∀ m, unmarshalMap F payload = some (some m) →
      F.marshal (m.insert "type" (.str msgType)) = none) :
    ∃ err, Codec.injectType F payload msgType = .error (.rejected err) := by
  cases hinject : Codec.injectType F payload msgType with
  | ok out =>
      unfold Codec.injectType at hinject
      split at hinject
      · cases hinject
      · cases hinject
      · next m hm =>
          rw [hmap m hm] at hinject
          cases hinject
  | error fault =>
      cases fault with
      | rejected err => exact ⟨err, rfl⟩
      | panicked => exact absurd ((injectType_eq_panicked_iff F payload msgType).mp hinject) hnull

theorem returns_of_not_nullCandle (hnull : ¬ NullCandle channel payload) :
    ∃ h' sent, h.route F channel payload = some (h', sent) := by
  by_cases hbook : ∃ exch symbol, splitChannel channel = some ("orderbook", exch, symbol)
  · obtain ⟨exch, symbol, hsplit⟩ := hbook
    rw [WireHub.route_orderbook hsplit, WireHub.routeOrderbook]
    cases hencode : Codec.encodeBinary F payload with
    | ok frame => exact ⟨_, _, rfl⟩
    | error fault =>
        cases fault with
        | rejected err => exact ⟨_, _, rfl⟩
        | panicked => exact absurd hencode (encodeBinary_ne_panicked F payload)
  by_cases hcandle : ∃ exch symbol, splitChannel channel = some ("candles1s", exch, symbol)
  · obtain ⟨exch, symbol, hsplit⟩ := hcandle
    rw [WireHub.route_candles1s hsplit, WireHub.routeCandles1s]
    cases hinject : Codec.injectType F payload "candles1s" with
    | ok tagged => exact ⟨_, _, rfl⟩
    | error fault =>
        cases fault with
        | rejected err => exact ⟨_, _, rfl⟩
        | panicked =>
            have hpayload := (injectType_eq_panicked_iff F payload _).mp hinject
            exact absurd ⟨⟨exch, symbol, hsplit⟩, hpayload⟩ hnull
  · refine ⟨h, [], WireHub.route_dropped fun exch symbol => ⟨fun hsplit => ?_, fun hsplit => ?_⟩⟩
    · exact hbook ⟨exch, symbol, hsplit⟩
    · exact hcandle ⟨exch, symbol, hsplit⟩

theorem route_of_nullCandle (hnull : NullCandle channel payload) :
    h.route F channel payload = none := by
  obtain ⟨⟨exch, symbol, hsplit⟩, hpayload⟩ := hnull
  have hpanic : Codec.injectType F payload "candles1s" = .error .panicked :=
    (injectType_eq_panicked_iff F payload _).mpr hpayload
  rw [WireHub.route_candles1s hsplit, WireHub.routeCandles1s, hpanic]

/-- A message that is rejected leaves no trace. -/
theorem route_of_rejected (hnull : ¬ NullCandle channel payload)
    (hrejected : Rejected F channel payload) : h.route F channel payload = some (h, []) := by
  cases hrejected with
  | channel hdrop => exact WireHub.route_dropped hdrop
  | book hsplit hbook =>
      obtain ⟨err, hencode⟩ := encodeBinary_of_not_isBook hbook
      rw [WireHub.route_orderbook hsplit, WireHub.routeOrderbook, hencode]
  | @candle exch symbol hsplit hmap =>
      obtain ⟨err, hinject⟩ := injectType_of_marshal_eq_none
        (fun h => hnull ⟨⟨exch, symbol, hsplit⟩, h⟩) hmap
      rw [WireHub.route_candles1s hsplit, WireHub.routeCandles1s, hinject]

/-- **For every hub, channel and payload, a message is routed if and only if it is not the text
`null` on a channel of candles.** -/
theorem routed_iff (F : Formats) (h : WireHub C) (channel : String) (payload : Bytes) :
    Routed F h channel payload ↔ ¬ NullCandle channel payload := by
  constructor
  · intro hrouted hnull
    obtain ⟨h', sent, hroute⟩ := hrouted.returns
    rw [route_of_nullCandle hnull] at hroute
    cases hroute
  · intro hnull
    refine ⟨returns_of_not_nullCandle hnull, route_of_rejected hnull, ?_⟩
    intro exch symbol dp hsplit hbook
    obtain ⟨frame, hframe, hencode⟩ := encodeBinary_of_isBook hbook
    exact ⟨frame, hframe, by rw [WireHub.route_orderbook hsplit, WireHub.routeOrderbook, hencode]⟩

end

/-! ### A message that panics -/

/-- Floating-point numbers as bits, and whole numbers for them; the text below has none. -/
def bitFormats : Formats where
  F64 := UInt64
  F32 := UInt32
  parseFloat text := (Strconv.readInt text).toOption.map Int64.toUInt64
  toFloat32 := UInt64.toUInt32
  float64 := Int64.toUInt64
  float64bits := id
  float64frombits := id
  float64frombits_float64bits := fun _ => rfl
  float32bits := id
  float32frombits := id
  float32frombits_float32bits := fun _ => rfl
  marshal := fun _ => some []

theorem null_candle_panics : ¬ ∀ (channel : String) (payload : Bytes),
    Routed bitFormats (WireHub.new : WireHub ℕ) channel payload := by
  intro h
  have hnull : NullCandle "candles1s:bybit:BTC-USDT" (ascii "null") := by
    refine ⟨⟨"bybit", "BTC-USDT", by decide⟩, [], [], ?_, ?_, rfl⟩
    · exact List.forall_mem_nil _
    · exact List.forall_mem_nil _
  obtain ⟨h', sent, hroute⟩ := (h _ _).returns
  rw [route_of_nullCandle hnull] at hroute
  cases hroute

/-! ### The hub of frames -/

section

variable {F : Formats} {C : Type}

variable (F) in
/-- The hub with its snapshots read. -/
def WireHub.decoded (h : WireHub C) : Hub F.toFloats C :=
  ⟨h.senders, h.bySymbol, fun symbol => (h.lastSnap symbol).bind (readFrame F)⟩

theorem decoded_cache (h : WireHub C) (symbol : String) {encoded : Bytes}
    {frame : Frame F.toFloats} (hread : readFrame F encoded = some frame) :
    (h.cache symbol encoded).decoded F = { h.decoded F with
      lastSnap := Function.update (h.decoded F).lastSnap symbol (some frame) } := by
  have hsnap : (fun s => (Function.update h.lastSnap symbol (some encoded) s).bind (readFrame F)) =
      Function.update (h.decoded F).lastSnap symbol (some frame) := by
    funext s
    by_cases hs : s = symbol
    · subst hs
      rw [Function.update_self, Function.update_self, Option.bind_some, hread]
    · rw [Function.update_of_ne hs, Function.update_of_ne hs]
      rfl
  exact congrArg (Hub.mk h.senders h.bySymbol) hsnap

/-- **A book of the aggregator does to the hub in bytes what it does to the hub of frames.** -/
theorem decoded_route (h : WireHub C) {exch : Exchange} {raw : String} {tsNs : Int64}
    {bids asks : List (List String)} {payload : Bytes}
    (hpayload : parse payload = some (Publication.orderbook exch raw tsNs bids asks).payload) :
    let p := Publication.orderbook exch raw tsNs bids asks
    ∃ h' sent, h.route F p.channel payload = some (h', sent) ∧
      h'.decoded F = ((h.decoded F).route p.channel p.payload).1 ∧
      sent.map (fun d => (d.client, readFrame F d.data)) =
        ((h.decoded F).route p.channel p.payload).2.map fun d => (d.client, some d.frame) := by
  intro p
  have hsplit : splitChannel p.channel = some ("orderbook", exch.name, p.symbol) :=
    splitChannel_channel p
  have hframe : (Codec.encodeBinary F payload).toOption.bind (readFrame F) =
      Gateway.encodeBinary F.toFloats p.payload := readFrame_encodeBinary F hpayload
  have hhub : (h.decoded F).route p.channel p.payload =
      (h.decoded F).routeOrderbook p.symbol p.payload := by
    rw [Hub.route, hsplit]
    exact if_pos rfl
  rw [WireHub.route_orderbook hsplit, hhub, WireHub.routeOrderbook, Hub.routeOrderbook, ← hframe]
  cases hencode : Codec.encodeBinary F payload with
  | error fault =>
      cases fault with
      | panicked => exact absurd hencode (encodeBinary_ne_panicked F payload)
      | rejected err => exact ⟨h, [], rfl, rfl, rfl⟩
  | ok encoded =>
      obtain ⟨dp, hread, hbids, hasks, rfl⟩ := (encodeBinary_eq_ok_iff F payload encoded).mp hencode
      have hlevels := (bookFrame_frameBytes ⟨hread, hbids, hasks⟩).levels
      rw [Except.toOption, Option.bind_some, hlevels]
      refine ⟨_, _, rfl, ?_, ?_⟩
      · rw [decoded_cache h _ hlevels]
      · show (h.toTargets p.symbol .binary _).map _ =
          ((h.decoded F).toSubscribers p.symbol _).map _
        rw [WireHub.toTargets, Hub.toSubscribers, List.map_map, List.map_map]
        exact List.map_congr_left fun c _ => congrArg (Prod.mk c) hlevels

end

end MagnumOpus.Gateway
