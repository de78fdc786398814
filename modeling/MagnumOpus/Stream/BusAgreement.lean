import MagnumOpus.Aggregator.RedisWriter
import MagnumOpus.Bot.StreamEvents
import MagnumOpus.Candle.Publisher

/-! # From the producers to the bot service

The candle service and the aggregator write the entries that the bot service reads, and the three
agree on nothing but the names of fields.

* **What an entry should mean.** `Accepted`: the entry is read as an event with the values of the
  record that it was written for.
* **What it does mean.** Nothing (`not_accepted`).  No record is written under all the names that
  are asked for: the quote volume of a bar is `quote_vol`, the features of a book have no mid
  price, and the time of a tick is `ts_exchange` and that of a gap `gap_ts`. -/

namespace MagnumOpus.Stream

open Candle Strconv

/-- What a producer writes one or two entries for. -/
inductive Record where
  | closedBar (exchange symbol : String) (bar : Cascade.Bar)
  | partialBar (exchange symbol : String) (bar : Cascade.Bar)
  | obFeatures (exchange symbol : String) (bar : FullBar)
  | tick (t : Aggregator.Tick)
  | gap (exch : String) (sym : Aggregator.Symbol) (g : Aggregator.GapEvent)

/-- The stream of a symbol's ticks and gaps. -/
def tickStream (exch : String) (sym : Aggregator.Symbol) : String := "ticks:" ++ exch ++ ":" ++ sym

/-- The entries of a record, with their stream keys. -/
def Record.entries (C : FloatText) : Record → List (String × List (String × String))
  | .closedBar exchange symbol bar => Publisher.publishBars C exchange symbol [bar]
  | .partialBar exchange symbol bar => Publisher.publishPartialBar C exchange symbol bar
  | .obFeatures exchange symbol bar => Publisher.publishOBFeatures C exchange symbol bar
  | .tick t => [(tickStream t.exchange t.symbol, Aggregator.RedisWriter.tickFields t)]
  | .gap exch sym g => [(tickStream exch sym, Aggregator.RedisWriter.gapFields exch sym g)]

/-- The bar has the values of the producer's; a price that is nil says nothing. -/
structure SameBar (bar : Cascade.Bar) (isComplete : Bool) (e : Bot.BarClose) : Prop where
  exchange : e.exchange = bar.exchange
  symbol : e.symbol = bar.symbol
  tf : e.tf = bar.tf.text
  ts : e.ts = bar.openTs.toInt
  openPrice : ∀ x ∈ bar.openPrice, e.openPrice = x
  high : ∀ x ∈ bar.high, e.high = x
  low : ∀ x ∈ bar.low, e.low = x
  close : ∀ x ∈ bar.close, e.close = x
  volume : e.volume = bar.volume
  quoteVolume : e.quoteVolume = bar.quoteVol
  tradeCount : e.tradeCount = bar.tradeCount.toInt
  isComplete : e.isComplete = isComplete

/-- The event has the values of the record. -/
def Record.Means (P : Bot.PyNumbers) : Record → Bot.BusEvent → Prop
  | .closedBar _ _ bar, .barClose e => SameBar bar true e
  | .partialBar _ _ bar, .barClose e => SameBar bar false e
  | .obFeatures _ _ bar, .obSnapshot e =>
      e.exchange = bar.exchange ∧ e.symbol = bar.symbol ∧ e.ts = bar.tsSecMs.toInt ∧
        (∀ x ∈ bar.bestBid, e.bestBid = x) ∧ ∀ x ∈ bar.bestAsk, e.bestAsk = x
  | .tick t, .tick e =>
      e.exchange = t.exchange ∧ e.symbol = t.symbol ∧ e.ts = (t.tsExchange / 1000000).toInt ∧
        P.float t.price = some e.price ∧ P.float t.size = some e.size ∧ e.side = t.side
  | .gap exch sym g, .gap e =>
      e.exchange = exch ∧ e.symbol = sym ∧ e.gapCause = g.cause.text ∧
        e.ts = (Aggregator.unixMilli g.timestamp).toInt
  | _, _ => False

/-- The bot service reads the entry as the record. -/
def Accepted (P : Bot.PyNumbers) (r : Record) (entry : String × List (String × String)) : Prop :=
  ∃ ev, (Bot.parseStreamEntry P entry.1 entry.2).1 = some ev ∧ r.Means P ev

variable {P : Bot.PyNumbers} {C : FloatText}

/-! ### Names that are missing -/

theorem barFields_no_quote_volume (bar : Cascade.Bar) (isComplete : Bool) :
    (Publisher.barFields C bar isComplete).lookup "quote_volume" = none := by
  unfold Publisher.barFields
  by_cases hcount : 0 < bar.tradeCount <;> cases hmean : bar.spreadMean <;>
    simp [hcount, List.lookup_cons]

theorem obFields_no_mid_price (bar : FullBar) :
    (Publisher.obFields C bar).lookup "mid_price" = none := by
  simp [Publisher.obFields, List.lookup_cons]

theorem startswith_candles (exchange symbol : String) (tf : Cascade.TF) :
    Bot.startswith (Publisher.partialKey exchange symbol tf) "candles:" = true ∧
      Bot.startswith (Publisher.closeKey exchange symbol tf) "candles:" = true := by
  unfold Publisher.partialKey Publisher.closeKey
  constructor <;> simp [Bot.startswith, String.toList_append, List.isPrefixOf]

/-- No entry of a bar is read, whatever stream of bars it is in. -/
theorem parse_barFields {streamKey : String} (hkey : Bot.startswith streamKey "candles:" = true)
    (bar : Cascade.Bar) (isComplete : Bool) :
    (Bot.parseStreamEntry P streamKey (Publisher.barFields C bar isComplete)).1 = none := by
  rw [Option.eq_none_iff_forall_ne_some]
  intro ev hev
  obtain ⟨b, -, rfl⟩ := Bot.parseStreamEntry_candles hkey hev
  have hquote := (Bot.readFrom_parseStreamEntry hev).floats ("quote_volume", b.quoteVolume)
    (by simp [Bot.BusEvent.floats])
  exact Bot.lookup_ne_none_of_floatField hquote (barFields_no_quote_volume bar isComplete)

theorem parse_obFields (exchange symbol : String) (bar : FullBar) :
    (Bot.parseStreamEntry P ("ob_features:" ++ exchange ++ ":" ++ symbol)
      (Publisher.obFields C bar)).1 = none := by
  rw [Option.eq_none_iff_forall_ne_some]
  intro ev hev
  have hkey : Bot.startswith ("ob_features:" ++ exchange ++ ":" ++ symbol) "ob_features:" =
      true := by
    simp [Bot.startswith, String.toList_append, List.isPrefixOf]
  have hother : Bot.startswith ("ob_features:" ++ exchange ++ ":" ++ symbol) "candles:" =
      false := by
    simp [Bot.startswith, String.toList_append, List.isPrefixOf]
  obtain ⟨o, -, rfl⟩ := Bot.parseStreamEntry_obFeatures hkey hother hev
  have hmid := (Bot.readFrom_parseStreamEntry hev).floats ("mid_price", o.midPrice)
    (by simp [Bot.BusEvent.floats])
  exact Bot.lookup_ne_none_of_floatField hmid (obFields_no_mid_price bar)

theorem parse_tickFields (streamKey : String) (t : Aggregator.Tick) :
    (Bot.parseStreamEntry P streamKey (Aggregator.RedisWriter.tickFields t)).1 = none :=
  Bot.parseStreamEntry_of_no_ts (by simp [Aggregator.RedisWriter.tickFields, List.lookup_cons])

theorem parse_gapFields (streamKey exch : String) (sym : Aggregator.Symbol)
    (g : Aggregator.GapEvent) :
    (Bot.parseStreamEntry P streamKey (Aggregator.RedisWriter.gapFields exch sym g)).1 = none :=
  Bot.parseStreamEntry_of_no_ts (by simp [Aggregator.RedisWriter.gapFields, List.lookup_cons])

/-! ### No entry is read -/

theorem parse_entries {r : Record} {entry : String × List (String × String)}
    (h : entry ∈ r.entries C) : (Bot.parseStreamEntry P entry.1 entry.2).1 = none := by
  cases r with
  | closedBar exchange symbol bar =>
      obtain ⟨hpart, hclose⟩ := startswith_candles exchange symbol bar.tf
      rcases Publisher.mem_publishBars h with rfl | rfl
      · exact parse_barFields hpart bar true
      · exact parse_barFields hclose bar true
  | partialBar exchange symbol bar =>
      simp only [Record.entries, Publisher.publishPartialBar] at h
      split at h
      · exact absurd h List.not_mem_nil
      · obtain rfl := List.mem_singleton.mp h
        exact parse_barFields (startswith_candles exchange symbol bar.tf).1 bar false
  | obFeatures exchange symbol bar =>
      obtain rfl := List.mem_singleton.mp h
      exact parse_obFields exchange symbol bar
  | tick t =>
      obtain rfl := List.mem_singleton.mp h
      exact parse_tickFields _ t
  | gap exch sym g =>
      obtain rfl := List.mem_singleton.mp h
      exact parse_gapFields _ exch sym g

/-- **No entry of any record is read as the record.** -/
theorem not_accepted (P : Bot.PyNumbers) (C : FloatText) (r : Record)
    (entry : String × List (String × String)) (h : entry ∈ r.entries C) : ¬ Accepted P r entry := by
  rintro ⟨ev, hev, -⟩
  rw [parse_entries h] at hev
  cases hev

/-- A purchase. -/
def purchase : Aggregator.Tick where
  exchange := "bybit"
  symbol := "BTC-USDT"
  seq := 7
  tsExchange := 60000000000
  tsLocal := 60000000000
  side := "bid"
  price := "7"
  size := "2"
  type := .trade

/-- The entry of a purchase. -/
def purchaseEntry : String × List (String × String) :=
  ("ticks:bybit:BTC-USDT", Aggregator.RedisWriter.tickFields purchase)

theorem not_accepted_purchase : ¬ Accepted Bot.wholeNumbers (.tick purchase) purchaseEntry :=
  not_accepted Bot.wholeNumbers .fraction (.tick purchase) purchaseEntry
    (by decide +kernel)

/-- It is written, and no event comes of it. -/
theorem purchase_vanishes :
    purchaseEntry ∈ (Record.tick purchase).entries .fraction ∧
      ¬ Accepted Bot.wholeNumbers (.tick purchase) purchaseEntry := by
  refine ⟨by decide +kernel, ?_⟩
  rintro ⟨ev, hev, -⟩
  have hnone :
      (Bot.parseStreamEntry Bot.wholeNumbers purchaseEntry.1 purchaseEntry.2).1 = none := by
    decide +kernel
  rw [hnone] at hev
  cases hev

end MagnumOpus.Stream
