import MagnumOpus.Aggregator.MarketMessage
import MagnumOpus.Aggregator.RedisWriter
import MagnumOpus.Candle.Accumulator
import MagnumOpus.Candle.OrderBook

/-! # From the exchange to the candle service

A tick goes through four vocabularies: the exchange's, the tick's, the stream entry's and the one
that the candle service's book and accumulator test for.

* **What the entry should mean.** `WireAgrees N m t`: the entry written for the tick `t` of the
  message `m` is read as the same event, a level change reaches the side of the candle book that it
  is for, and the size of a trade is added to the volume of the side that initiated it.
* **What it does mean.** The candle service reads the sequence as a signed number, and takes a
  side for the buyer's only when it is `"buy"`, which the adapters never write.
  `wireAgrees_iff` says which ticks agree all the same. -/

namespace MagnumOpus.Stream

open Aggregator Strconv

/-! ### What an entry is read as -/

/-- What the candle service reads from the entry of a tick. -/
def readTick (t : Aggregator.Tick) : Candle.Tick where
  seq := parseInt (formatUint t.seq)
  tsMs := t.tsExchange / 1000000
  price := t.price
  size := t.size
  side := t.side
  level := if t.type = .trade then 0 else 1

theorem parseMessage_tickFields (t : Aggregator.Tick) :
    Candle.parseMessage (RedisWriter.tickFields t) = .tick (readTick t) := by
  have hkind : t.type.text = "trade" ↔ t.type = .trade := by
    cases t.type <;> decide
  simp [Candle.parseMessage, RedisWriter.tickFields, Candle.getString, Candle.parseInt64,
    List.lookup_cons, parseInt_formatInt, readTick, hkind]

/-! ### The side of a trade -/

/-- The message is a trade that its buyer initiated. -/
def buyerInitiated : MarketMessage → Bool
  | .kucoin msg => (msg.data.bind Kucoin.TradeData.ofJson).any fun d => d.side = "buy"
  | .bybit frame =>
      match frame.data.bind fun v => v.toSlice.bind (List.mapM Bybit.TradeData.ofJson) with
      | some (d :: _) => d.S = "Buy"
      | _ => false

theorem side_of_kucoin_trade {msg : Kucoin.WireMessage} {p : Kucoin.ParsedTrade}
    (h : Kucoin.parseTrade msg = .ok p) :
    p.side = if buyerInitiated (.kucoin msg) then "bid" else "ask" := by
  unfold Kucoin.parseTrade at h
  obtain ⟨d, hd, h⟩ := JsonDecode.bind_eq_ok.mp h
  obtain ⟨seq, -, h⟩ := JsonDecode.bind_eq_ok.mp h
  obtain ⟨ts, -, h⟩ := JsonDecode.bind_eq_ok.mp h
  obtain ⟨side, hside, h⟩ := JsonDecode.bind_eq_ok.mp h
  obtain rfl := Except.ok.inj h
  have hdata : msg.data.bind Kucoin.TradeData.ofJson = some d := JsonDecode.orError_eq_ok.mp hd
  simp only [buyerInitiated, hdata, Option.any_some]
  unfold Kucoin.tradeSide at hside
  split at hside
  · next hs => cases hside; simp [hs]
  · next hs => cases hside; simp [hs]
  · cases hside

theorem side_of_bybit_trade {frame : Bybit.Frame} {p : Bybit.ParsedTrade}
    (h : Bybit.parseTrade frame.topic frame.data = .ok p) :
    p.side = if buyerInitiated (.bybit frame) then "bid" else "ask" := by
  unfold Bybit.parseTrade at h
  obtain ⟨ds, hds, h⟩ := JsonDecode.bind_eq_ok.mp h
  have hdata : (frame.data.bind fun v => v.toSlice.bind (List.mapM Bybit.TradeData.ofJson)) =
      some ds := JsonDecode.orError_eq_ok.mp hds
  cases ds with
  | nil => cases h
  | cons d ds =>
      obtain ⟨side, hside, h⟩ := JsonDecode.bind_eq_ok.mp h
      obtain rfl := Except.ok.inj h
      simp only [buyerInitiated, hdata]
      unfold Bybit.tradeSide at hside
      split at hside
      · next hs => cases hside; simp [hs]
      · next hs => cases hside; simp [hs]
      · cases hside

/-- A tick of a message is a level change with the text of its side, or a trade with the text of
the side that initiated it. -/
theorem side_of_mem_ticks {m : MarketMessage} {tsLocal : Int64} {t : Aggregator.Tick}
    (h : t ∈ m.ticks tsLocal) :
    (t.type = .update ∧ t.side = sideStr t.delta.side) ∨
    (t.type = .trade ∧ t.side = if buyerInitiated m then "bid" else "ask") := by
  cases m with
  | kucoin msg =>
      simp only [MarketMessage.ticks, Kucoin.handleMarketData] at h
      split at h
      · left
        split at h
        · simp at h
        · next u _ =>
            refine ⟨Kucoin.type_of_mem_updateTicks h, ?_⟩
            unfold Kucoin.updateTicks at h
            split at h
            · simp at h
            · rcases List.mem_cons.mp h with rfl | h
              · simp only [Kucoin.delta_deltaTick]
                rfl
              · obtain ⟨d, -, rfl⟩ := List.mem_map.mp h
                simp only [Kucoin.delta_deltaTick]
                rfl
      · right
        split at h
        · split at h
          · simp at h
          · next p hp =>
              obtain rfl := List.mem_singleton.mp h
              exact ⟨rfl, side_of_kucoin_trade hp⟩
        · simp at h
  | bybit frame =>
      simp only [MarketMessage.ticks, Bybit.onMsg] at h
      split at h
      · left
        split at h
        · simp at h
        · next u _ =>
            refine ⟨Bybit.type_of_mem_updateTicks h, ?_⟩
            obtain ⟨d, -, rfl⟩ := List.mem_map.mp h
            simp only [Bybit.delta_deltaTick]
            rfl
      · right
        split at h
        · split at h
          · simp at h
          · next p hp =>
              obtain rfl := List.mem_singleton.mp h
              exact ⟨rfl, side_of_bybit_trade hp⟩
        · simp at h

/-! ### Agreement -/

/-- The candle book with one level of the side `side` set or removed. -/
def setSide (ob : Candle.OrderBook) (side : Side) (price size : String) : Candle.OrderBook :=
  match side with
  | .bid => { ob with bids := Candle.OrderBook.setLevel ob.bids price size }
  | .ask => { ob with asks := Candle.OrderBook.setLevel ob.asks price size }

/-- The number that a size text stands for. -/
def sizeValue (N : Candle.Numerics) (size : String) : ℚ := (N.parseFloat size).getD 0

/-- The entry of the tick `t` of the message `m` means to the candle service what it should. -/
structure WireAgrees (N : Candle.Numerics) (m : MarketMessage) (t : Aggregator.Tick)
    (e : Candle.Tick) : Prop where
  read : Candle.parseMessage (RedisWriter.tickFields t) = .tick e
  seq : e.seq.toInt = t.seq.toNat
  price : e.price = t.price
  size : e.size = t.size
  kind : e.level = 0 ↔ t.type = .trade
  tsMs : e.tsMs = t.tsExchange / 1000000
  /-- A level change ends in the bids or the asks it is for. -/
  level : t.type = .update →
    ∀ ob : Candle.OrderBook, ob.applyDelta e = setSide ob t.delta.side t.price t.size
  /-- The size of a trade is added to the volume of the side that initiated it. -/
  volume : t.type = .trade → ∀ a, Candle.Accumulator.Reachable N a → ∀ prev curr,
    let a' := a.apply N e.price e.size (e.level = 0) e.side e.tsMs prev curr
    a'.trades.buyVolume =
        a.trades.buyVolume + (if buyerInitiated m then sizeValue N t.size else 0) ∧
      a'.sellVolume = a.sellVolume + (if buyerInitiated m then 0 else sizeValue N t.size)

/-- The ticks whose entries keep their meaning: a sequence that fits a signed number, and either a
change of an ask level, or a trade of nothing, or a sale with a numeric price and a positive
size. -/
def KeepsMeaning (N : Candle.Numerics) (m : MarketMessage) (t : Aggregator.Tick) : Prop :=
  t.seq.toNat < 2 ^ 63 ∧
    if t.type = .trade then
      sizeValue N t.size = 0 ∨
        (buyerInitiated m = false ∧ (N.parseFloat t.price).isSome ∧ 0 < sizeValue N t.size)
    else t.delta.side = .ask

theorem applyDelta_readTick {t : Aggregator.Tick} (h : t.side ≠ "buy") (ob : Candle.OrderBook) :
    ob.applyDelta (readTick t) = setSide ob .ask t.price t.size := by
  simp only [Candle.OrderBook.applyDelta, readTick, h, if_false, setSide]

theorem setSide_bid_ne_ask (price size : String) :
    ∃ ob : Candle.OrderBook, setSide ob .ask price size ≠ setSide ob .bid price size := by
  by_cases h0 : size = "0"
  · -- Removing a level shows on a book that has it among the asks.
    refine ⟨{ Candle.OrderBook.new "" "" 0 with asks := Finmap.insert price "1" ∅ }, fun h => ?_⟩
    have hasks := congrArg (fun ob : Candle.OrderBook => ob.asks.lookup price) h
    simp [setSide, Candle.OrderBook.setLevel, h0] at hasks
  · refine ⟨Candle.OrderBook.new "" "" 0, fun h => ?_⟩
    have hasks := congrArg (fun ob : Candle.OrderBook => ob.asks.lookup price) h
    simp [setSide, Candle.OrderBook.setLevel, h0, Candle.OrderBook.new] at hasks

theorem sideStr_ne_buy (side : Side) : sideStr side ≠ "buy" := by
  cases side <;> decide

theorem level_iff {t : Aggregator.Tick} (hside : t.side = sideStr t.delta.side) :
    (∀ ob : Candle.OrderBook,
      ob.applyDelta (readTick t) = setSide ob t.delta.side t.price t.size) ↔
      t.delta.side = .ask := by
  have happly := applyDelta_readTick (hside ▸ sideStr_ne_buy t.delta.side)
  constructor
  · intro h
    cases hd : t.delta.side with
    | ask => rfl
    | bid =>
        obtain ⟨ob, hne⟩ := setSide_bid_ne_ask t.price t.size
        have hob := h ob
        rw [happly ob, hd] at hob
        exact absurd hob hne
  · intro h ob
    rw [happly ob, h]

/-! ### Volumes -/

section Volumes

open Candle.Accumulator

variable {N : Candle.Numerics} {price size : String} {buyer : Bool} {tsMs : Int64}

/-- The accumulator adds the size of a trade with an adapter's side text where it belongs. -/
def AddsVolume (N : Candle.Numerics) (price size : String) (buyer : Bool) (tsMs : Int64) : Prop :=
  ∀ a, Reachable N a → ∀ prev curr : Candle.BestQuote,
    let a' := a.apply N price size true (if buyer then "bid" else "ask") tsMs prev curr
    a'.trades.buyVolume = a.trades.buyVolume + (if buyer then sizeValue N size else 0) ∧
      a'.sellVolume = a.sellVolume + (if buyer then 0 else sizeValue N size)

theorem tradeSide_ne_buy (buyer : Bool) : (if buyer then "bid" else "ask") ≠ "buy" := by
  cases buyer <;> decide

theorem volumes_of_counts {p s : ℚ} (h : parseTrade N price size = some (p, s))
    {a : Candle.Accumulator} (ha : Reachable N a) (tsMs : Int64)
    (prev curr : Candle.BestQuote) :
    let a' := a.apply N price size true (if buyer then "bid" else "ask") tsMs prev curr
    a'.trades.buyVolume = a.trades.buyVolume ∧ a'.sellVolume = a.sellVolume + s := by
  intro a'
  obtain ⟨htotal, hbuy⟩ :=
    volumes_apply_of_counts a h (if buyer then "bid" else "ask") tsMs prev curr
  rw [if_neg (tradeSide_ne_buy buyer), add_zero] at hbuy
  have hle := ha.buyVolume_le
  have hs : 0 < s := (parseTrade_eq_some.mp h).2.2
  refine ⟨hbuy, ?_⟩
  rw [sellVolume, sellVolume, htotal, hbuy, max_eq_right (by linarith), max_eq_right (by linarith)]
  linarith

/-- The size of a trade is added where it belongs exactly when it is nothing, or a positive size
at a numeric price that a seller initiated. -/
theorem addsVolume_iff :
    AddsVolume N price size buyer tsMs ↔
      sizeValue N size = 0 ∨
        (buyer = false ∧ (N.parseFloat price).isSome ∧ 0 < sizeValue N size) := by
  cases hparse : parseTrade N price size with
  | none =>
      have hsame : ∀ (a : Candle.Accumulator) (prev curr : Candle.BestQuote),
          (a.apply N price size true (if buyer then "bid" else "ask") tsMs prev curr).trades =
            a.trades :=
        fun a prev curr => volumes_apply_of_not_counts a (fun _ => hparse) _ tsMs prev curr
      constructor
      · intro h
        left
        obtain ⟨hbuy, hsell⟩ := h {} .new ⟨"", "", "", ""⟩ ⟨"", "", "", ""⟩
        simp only [hsame, sellVolume] at hbuy hsell
        cases buyer with
        | true => simpa [eq_comm] using hbuy
        | false => simpa [eq_comm] using hsell
      · rintro (h0 | ⟨-, hprice, hpos⟩)
        · intro a _ prev curr
          simp [hsame, sellVolume, h0]
        · exfalso
          obtain ⟨p, hp⟩ := Option.isSome_iff_exists.mp hprice
          cases hs : N.parseFloat size with
          | none => simp [sizeValue, hs] at hpos
          | some s =>
              rw [sizeValue, hs, Option.getD_some] at hpos
              rw [parseTrade_eq_some.mpr ⟨hp, hs, hpos⟩] at hparse
              cases hparse
  | some ps =>
      obtain ⟨p, s⟩ := ps
      obtain ⟨hp, hs, hpos⟩ := parseTrade_eq_some.mp hparse
      have hvalue : sizeValue N size = s := by rw [sizeValue, hs, Option.getD_some]
      rw [hvalue]
      constructor
      · intro h
        right
        obtain ⟨hbuy, -⟩ := h {} .new ⟨"", "", "", ""⟩ ⟨"", "", "", ""⟩
        rw [(volumes_of_counts hparse .new tsMs _ _).1, hvalue] at hbuy
        cases buyer with
        | false => exact ⟨rfl, by simp [hp], hpos⟩
        | true =>
            simp at hbuy
            exact absurd hbuy hpos.ne
      · rintro (h0 | ⟨rfl, -, -⟩)
        · exact absurd h0 hpos.ne'
        · intro a ha prev curr
          have hvol := @volumes_of_counts N price size false p s hparse a ha tsMs prev curr
          simpa [hvalue] using hvol

end Volumes

/-! ### The ticks that agree -/

/-- **The entry of a tick keeps its meaning exactly when** its sequence is below `2^63` and it is a
change of an ask level, a trade of nothing, or a sale with a numeric price and a positive size. -/
theorem wireAgrees_iff {N : Candle.Numerics} {m : MarketMessage} {tsLocal : Int64}
    {t : Aggregator.Tick} (h : t ∈ m.ticks tsLocal) :
    (∃ e, WireAgrees N m t e) ↔ KeepsMeaning N m t := by
  have hread := parseMessage_tickFields t
  have hkind : (readTick t).level = 0 ↔ t.type = .trade := by
    simp only [readTick]
    split <;> simp_all
  -- There is one event to consider, the one that is read.
  have hone : (∃ e, WireAgrees N m t e) ↔ WireAgrees N m t (readTick t) := by
    refine ⟨?_, fun hw => ⟨_, hw⟩⟩
    rintro ⟨e, hw⟩
    have he : e = readTick t := Candle.ParsedMessage.tick.inj (hw.read.symm.trans hread)
    rwa [he] at hw
  have hseq : (readTick t).seq.toInt = t.seq.toNat ↔ t.seq.toNat < 2 ^ 63 :=
    parseInt_formatUint_eq_iff t.seq
  rw [hone, KeepsMeaning]
  rcases side_of_mem_ticks h with ⟨htype, hside⟩ | ⟨htype, hside⟩
  · have hlevel := level_iff hside
    have hnot : t.type ≠ .trade := by
      rw [htype]
      decide
    rw [if_neg hnot]
    constructor
    · intro hw
      exact ⟨hseq.mp hw.seq, hlevel.mp (hw.level htype)⟩
    · rintro ⟨hlt, hask⟩
      exact { read := hread, seq := hseq.mpr hlt, price := rfl, size := rfl, kind := hkind,
              tsMs := rfl, level := fun _ => hlevel.mpr hask,
              volume := fun htrade => absurd htrade hnot }
  · have hlevel0 : (readTick t).level = 0 := hkind.mpr htype
    have hvolume : AddsVolume N t.price t.size (buyerInitiated m) (readTick t).tsMs ↔ _ :=
      addsVolume_iff
    have hside' : (readTick t).side = if buyerInitiated m then "bid" else "ask" := hside
    rw [if_pos htype, ← hvolume]
    constructor
    · intro hw
      refine ⟨hseq.mp hw.seq, fun a ha prev curr => ?_⟩
      have hvol := hw.volume htype a ha prev curr
      rwa [hlevel0, hside'] at hvol
    · rintro ⟨hlt, hadds⟩
      refine { read := hread, seq := hseq.mpr hlt, price := rfl, size := rfl, kind := hkind,
               tsMs := rfl, level := fun hupdate => ?_, volume := fun _ a ha prev curr => ?_ }
      · rw [htype] at hupdate
        cases hupdate
      · rw [hlevel0, hside']
        exact hadds a ha prev curr

/-! ### Three ticks -/

/-- Numbers of two texts. -/
def twoNumbers : Candle.Numerics where
  parseFloat s := if s = "100" then some 100 else if s = "2" then some 2 else none
  exp x := x
  log x := x

/-- A Bybit message with one bid and one ask at update 7. -/
def bidAndAsk : MarketMessage :=
  .bybit { topic := "orderbook.1.BTCUSDT", ts := 1000,
           data := some (.obj [("s", .str "BTCUSDT"),
             ("b", .arr [.arr [.str "100", .str "2"]]),
             ("a", .arr [.arr [.str "101", .str "2"]]), ("u", .num "7")]) }

/-- A KuCoin trade that its buyer initiated. -/
def buyerTrade : MarketMessage :=
  .kucoin { topic := "/market/match:BTC-USDT",
            data := some (.obj [("sequence", .str "9"), ("price", .str "100"), ("size", .str "2"),
              ("side", .str "buy"), ("time", .str "1000000")]) }

/-- The tick of one side of `bidAndAsk`. -/
def sideTick (side price : String) : Aggregator.Tick where
  exchange := "bybit"
  symbol := "BTC-USDT"
  seq := 7
  tsExchange := 1000000000
  tsLocal := 0
  side := side
  price := price
  size := "2"
  type := .update

/-- The tick of `buyerTrade`. -/
def buyerTick : Aggregator.Tick where
  exchange := "kucoin"
  symbol := "BTC-USDT"
  seq := 9
  tsExchange := 1000000
  tsLocal := 0
  side := "bid"
  price := "100"
  size := "2"
  type := .trade

theorem ask_agrees : ∃ e, WireAgrees twoNumbers bidAndAsk (sideTick "ask" "101") e :=
  (@wireAgrees_iff _ bidAndAsk 0 _ (by decide)).mpr ⟨by decide, by decide⟩

/-- The change of the bid ends among the asks, and the size of the purchase in the sell volume. -/
theorem bid_and_purchase_disagree :
    (sideTick "bid" "100" ∈ bidAndAsk.ticks 0 ∧
      ¬ ∃ e, WireAgrees twoNumbers bidAndAsk (sideTick "bid" "100") e) ∧
    (buyerTick ∈ buyerTrade.ticks 0 ∧ ¬ ∃ e, WireAgrees twoNumbers buyerTrade buyerTick e) := by
  have hread : ∀ {m t e}, WireAgrees twoNumbers m t e → e = readTick t := fun hw =>
    Candle.ParsedMessage.tick.inj (hw.read.symm.trans (parseMessage_tickFields _))
  refine ⟨⟨by decide, ?_⟩, ⟨by decide, ?_⟩⟩
  · rintro ⟨e, hw⟩
    obtain rfl := hread hw
    have hask := (level_iff (by decide)).mp (hw.level (by decide))
    exact absurd hask (by decide)
  · rintro ⟨e, hw⟩
    obtain rfl := hread hw
    have hadds : AddsVolume twoNumbers "100" "2" true (readTick buyerTick).tsMs :=
      fun a ha prev curr => hw.volume rfl a ha prev curr
    rcases addsVolume_iff.mp hadds with h0 | ⟨hfalse, -⟩
    · simp [sizeValue, twoNumbers] at h0
    · cases hfalse

end MagnumOpus.Stream
