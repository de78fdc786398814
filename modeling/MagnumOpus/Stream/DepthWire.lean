import MagnumOpus.Aggregator.DepthPublisher
import MagnumOpus.Gateway.Routing

/-! # A book from the aggregator to the browser

The aggregator publishes the best levels of a book as JSON (`pubsub/publisher.go`); the gateway
makes a binary frame of the message and sends it to the subscribers of the symbol (`hub.go`,
`codec.go`).

Every published book arrives (`arrives_of_publish`): the frame is read as the time of the update and
the best levels of each side, in order, without those whose size is not a number.  The texts of the
levels go through the JSON unchanged, whatever characters they have. -/

namespace MagnumOpus.Stream

open Aggregator (Symbol Tick)
open Aggregator.DepthPublisher
open Gateway Gateway.Codec
open JsonDecode (JsonValue)
open JsonScan (Bytes parse)
open JsonUnmarshal

/-- The number formats of both ends. -/
structure DepthFormats extends Codec.Formats where
  value : F64 → Option (WithBot (WithTop ℚ))
  zero : F64
  add : F64 → F64 → F64
  sub : F64 → F64 → F64
  half : F64 → F64
  literal : F64 → Option String
  isLiteral_of_literal : ∀ {x text}, literal x = some text → JsonMarshal.IsLiteral text

/-- Those of the publisher. -/
def DepthFormats.publisher (W : DepthFormats) : Aggregator.DepthPublisher.Floats where
  F64 := W.F64
  value := W.value
  zero := W.zero
  add := W.add
  sub := W.sub
  half := W.half
  parseFloat := W.parseFloat
  literal := W.literal
  isLiteral_of_literal := W.isLiteral_of_literal

variable {W : DepthFormats} {C : Type}

/-- What a client reads of a level: its price, and its size as a number of 32 bits. -/
def received (l : PriceLevel W.publisher) : Option (W.F64 × W.F32) :=
  (W.parseFloat l.sizeStr).map fun size => (l.price, W.toFloat32 size)

/-- The message puts the best levels of the book before the subscribers of the symbol. -/
def Arrives (hub : WireHub C) (sym : Symbol) (bids asks : KeyedSum.Entries String String)
    (tsNs : Int64) (channel : String) (payload : Bytes) : Prop :=
  ∃ frame, hub.route W.toFormats channel payload =
      some (hub.cache sym frame, hub.toTargets sym .binary frame) ∧
    ∃ topBids topAsks : List (PriceLevel W.publisher),
      Best true (levelsOf W.publisher bids) topBids ∧
      Best false (levelsOf W.publisher asks) topAsks ∧
      readFrame W.toFormats frame = some (.snapshot (W.float64 tsNs)
        (topBids.filterMap received) (topAsks.filterMap received))

/-! ### The message is decoded -/

theorem intoLevels_levelsJson (side : List (List String)) :
    intoLevels .nil (levelsJson side) = some (sideOf side) :=
  intoLevels_levels side

theorem intoDepth_payload_of_publish {N : Aggregator.DepthPublisher.Floats} {exch : String}
    {sym : Symbol} {bids asks : List (List String)} {tick : Tick} {v : JsonValue}
    (h : Aggregator.DepthPublisher.payload N exch sym bids asks tick = some v) :
    intoDepth v = some ⟨tick.tsLocal, sideOf bids, sideOf asks⟩ := by
  obtain ⟨askVolume, -, h⟩ := Option.bind_eq_some_iff.mp h
  obtain ⟨bidVolume, -, h⟩ := Option.bind_eq_some_iff.mp h
  obtain ⟨totalVolume, -, h⟩ := Option.bind_eq_some_iff.mp h
  obtain ⟨midPrice, -, h⟩ := Option.bind_eq_some_iff.mp h
  obtain ⟨spread, -, h⟩ := Option.bind_eq_some_iff.mp h
  obtain rfl := Option.some.inj h
  have hts : ∀ dp : DepthPayload, intoField dp "ts_ns" (.num (Strconv.formatInt tick.tsLocal)) =
      some { dp with tsNs := tick.tsLocal } := fun dp => by
    rw [intoField, if_pos rfl, intoInt64, Strconv.readInt_formatInt]
    rfl
  have hbids : intoField ⟨0, .nil, sideOf asks⟩ "bids" (levelsJson bids) =
      some ⟨0, sideOf bids, sideOf asks⟩ := by
    rw [intoField, if_neg (by decide), if_pos rfl, intoLevels_levelsJson]
    rfl
  have hasks : intoField {} "asks" (levelsJson asks) = some ⟨0, .nil, sideOf asks⟩ := by
    rw [intoField, if_neg (by decide), if_neg (by decide), if_pos rfl, intoLevels_levelsJson]
    rfl
  have hother : ∀ key ∈ ["exchange", "interval_ask_volume", "interval_bid_volume",
      "interval_total_volume", "mid_price", "spread", "symbol", "update_count"],
      foldName key ∉ ["ts_ns", "bids", "asks"].map foldName := by decide
  have hskip : ∀ (dp : DepthPayload) (key : String) (v : JsonValue),
      foldName key ∉ ["ts_ns", "bids", "asks"].map foldName → intoField dp key v = some dp := by
    intro dp key v hkey
    simp only [List.map_cons, List.map_nil, List.mem_cons, List.not_mem_nil, or_false,
      not_or] at hkey
    rw [intoField, if_neg hkey.1, if_neg hkey.2.1, if_neg hkey.2.2]
  simp only [List.forall_mem_cons] at hother
  obtain ⟨h₁, h₂, h₃, h₄, h₅, h₆, h₇, h₈, -⟩ := hother
  rw [intoDepth]
  simp only [List.foldlM_cons, List.foldlM_nil, Option.bind_eq_bind, Option.bind_some, hasks, hbids,
    hts, hskip _ _ _ h₁, hskip _ _ _ h₂, hskip _ _ _ h₃, hskip _ _ _ h₄, hskip _ _ _ h₅,
    hskip _ _ _ h₆, hskip _ _ _ h₇, hskip _ _ _ h₈]
  rfl

theorem unmarshalDepth_of_publish {N : Aggregator.DepthPublisher.Floats} {exch : String}
    {sym : Symbol} {bids asks : List (List String)} {tick : Tick} {v : JsonValue}
    (h : Aggregator.DepthPublisher.payload N exch sym bids asks tick = some v) :
    unmarshalDepth (JsonMarshal.marshal v) = some ⟨tick.tsLocal, sideOf bids, sideOf asks⟩ := by
  have hreadable : JsonMarshal.Readable JsonScan.maxNestingDepth v := readable_payload h 9997
  rw [unmarshalDepth, JsonMarshal.parse_marshal hreadable, Option.bind_some,
    intoDepth_payload_of_publish h]

/-! ### The levels are parsed -/

/-- The price of a level is what its text denotes. -/
def Parsed (l : PriceLevel W.publisher) : Prop := W.parseFloat l.priceStr = some l.price

theorem parsed_of_mem_levelsOf {m : KeyedSum.Entries String String} {l : PriceLevel W.publisher}
    (h : l ∈ levelsOf W.publisher m) : Parsed l := by
  obtain ⟨e, -, he⟩ := List.mem_filterMap.mp h
  split at he
  · cases he
  · obtain ⟨price, hprice, rfl⟩ := Option.map_eq_some_iff.mp he
    exact hprice

theorem map_wire_parseLevels_pairs {top : List (PriceLevel W.publisher)} (h : ∀ l ∈ top, Parsed l) :
    (Codec.parseLevels W.toFormats (top.map fun l => [l.priceStr, l.sizeStr])).map
      (LevelEntry.wire W.toFormats) = top.filterMap received := by
  rw [Codec.parseLevels, List.map_filterMap, List.filterMap_map]
  refine List.filterMap_congr fun l hl => ?_
  have hprice : W.parseFloat l.priceStr = some l.price := h l hl
  rw [Function.comp_apply, parsePair, hprice, received]
  cases W.parseFloat l.sizeStr with
  | none => rfl
  | some size => rfl

theorem length_parseLevels_le (side : List (List String)) :
    (Codec.parseLevels W.toFormats side).length ≤ side.length :=
  List.length_filterMap_le _ _

theorem mem_of_best {descending : Bool} {levels top : List (PriceLevel W.publisher)}
    (h : Best descending levels top) {l : PriceLevel W.publisher} (hl : l ∈ top) : l ∈ levels := by
  obtain ⟨rest, hperm, -⟩ := h.others
  exact hperm.mem_iff.mp (List.mem_append_left rest hl)

/-! ### The book arrives -/

theorem splitChannel_orderbook (exch : Gateway.Exchange) (sym : Symbol) :
    splitChannel ("orderbook:" ++ exch.name ++ ":" ++ sym) =
      some ("orderbook", exch.name, sym) := by
  have htext : ("orderbook:" ++ exch.name ++ ":" ++ sym : String).toList =
      "orderbook".toList ++ ':' :: (exch.name.toList ++ ':' :: sym.toList) := by
    simp
  rw [splitChannel, htext, cut_append (by decide)]
  simp [cut_append exch.no_colon]

/-- **A published book arrives.** -/
theorem arrives_of_publish {S : LessSort (PriceLevel W.publisher)} (exch : Gateway.Exchange)
    {sym : Symbol} {bids asks : KeyedSum.Entries String String} {tick : Tick} {channel : String}
    {payload : Bytes}
    (h : publish W.publisher S exch.name sym bids asks tick = some (channel, payload))
    (hub : WireHub C) : Arrives (W := W) hub sym bids asks tick.tsLocal channel payload := by
  obtain ⟨v, hv, heq⟩ := Option.bind_eq_some_iff.mp h
  obtain ⟨rfl, rfl⟩ := Prod.mk.inj (Option.some.inj heq)
  obtain ⟨topBids, hbestBids, hbids⟩ := best_sortedLevels S bids true
  obtain ⟨topAsks, hbestAsks, hasks⟩ := best_sortedLevels S asks false
  rw [hbids, hasks] at hv
  have hread := unmarshalDepth_of_publish hv
  have hfew : ∀ {descending : Bool} {levels top : List (PriceLevel W.publisher)},
      Best descending levels top → (Codec.parseLevels W.toFormats
        (texts (sideOf (top.map fun l => [l.priceStr, l.sizeStr])))).length ≤ 0xFFFF := by
    intro descending levels top hbest
    have hle := length_parseLevels_le (W := W) (top.map fun l => [l.priceStr, l.sizeStr])
    have hlength := hbest.length
    have hmax : maxDepthLevels = 20 := rfl
    rw [List.length_map] at hle
    rw [texts_sideOf]
    omega
  have hwire : ∀ {descending : Bool} {m : KeyedSum.Entries String String}
      {top : List (PriceLevel W.publisher)}, Best descending (levelsOf W.publisher m) top →
      (Codec.parseLevels W.toFormats
        (texts (sideOf (top.map fun l => [l.priceStr, l.sizeStr])))).map
        (LevelEntry.wire W.toFormats) = top.filterMap received := by
    intro descending m top hbest
    rw [texts_sideOf]
    exact map_wire_parseLevels_pairs fun l hl => parsed_of_mem_levelsOf (mem_of_best hbest hl)
  obtain ⟨frame, hframe, hencode⟩ := encodeBinary_of_isBook (F := W.toFormats)
    ⟨hread, hfew hbestBids, hfew hbestAsks⟩
  refine ⟨frame, ?_, topBids, topAsks, hbestBids, hbestAsks, ?_⟩
  · rw [WireHub.route_orderbook (splitChannel_orderbook exch sym), WireHub.routeOrderbook, hencode]
  · rw [hframe.levels, hwire hbestBids, hwire hbestAsks]

/-- Floating-point numbers as bits, and whole numbers for them. -/
def bitDepthFormats : DepthFormats where
  toFormats := bitFormats
  value := fun x : UInt64 => some (WithBot.some (WithTop.some (mkRat x.toNat 1)))
  zero := (0 : UInt64)
  add := fun x y : UInt64 => x + y
  sub := fun x y : UInt64 => x - y
  half := fun x : UInt64 => x >>> 1
  literal := fun x : UInt64 => some (Strconv.formatInt x.toInt64)
  isLiteral_of_literal := by
    intro x text h
    obtain rfl := Option.some.inj h
    exact JsonMarshal.isLiteral_formatInt _

/-- Two bids, of which one has no size. -/
def twoBids : KeyedSum.Entries String String :=
  ((∅ : KeyedSum.Entries String String).insert "99" "0").insert "100" "3"

def oneAsk : KeyedSum.Entries String String :=
  (∅ : KeyedSum.Entries String String).insert "102" "5"

def updateTick : Tick where
  exchange := "bybit"
  symbol := "BTC-USDT"
  seq := 7
  tsExchange := 0
  tsLocal := 1000000000
  side := "bid"
  price := "100"
  size := "3"
  type := .update

theorem published_book_arrives : ∃ channel payload,
    publish bitDepthFormats.publisher .insertion "bybit" "BTC-USDT" twoBids oneAsk updateTick =
      some (channel, payload) ∧
    Arrives (W := bitDepthFormats) (WireHub.new : WireHub ℕ) "BTC-USDT" twoBids oneAsk
      updateTick.tsLocal channel payload := by
  have hpublish : ∃ message, publish bitDepthFormats.publisher .insertion "bybit" "BTC-USDT" twoBids
      oneAsk updateTick = some message := ⟨_, rfl⟩
  obtain ⟨⟨channel, payload⟩, hpublish⟩ := hpublish
  exact ⟨channel, payload, hpublish, arrives_of_publish ⟨"bybit", by decide⟩ hpublish _⟩

end MagnumOpus.Stream
