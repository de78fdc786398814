import Mathlib.Data.Rat.Defs
import MagnumOpus.Lib.JsonDecode

/-! # The events of the bot service

`event_types.py`: the events that strategies receive, and `parseStreamEntry`, which reads one from
an entry of a Redis stream.  The stream key says which kind of event it is; an entry of a known
stream that lacks a field, or has one that is no number, is logged and gives no event.

What texts Python's `int` and `float` read is a parameter (`PyNumbers`).  Order events do not come
from streams and are left out. -/

namespace MagnumOpus.Bot

open JsonDecode

/-! ### Events -/

structure BarClose where
  exchange : String
  symbol : String
  tf : String
  /-- Milliseconds. -/
  ts : ℤ
  openPrice : ℚ
  high : ℚ
  low : ℚ
  close : ℚ
  volume : ℚ
  quoteVolume : ℚ
  tradeCount : ℤ
  isComplete : Bool
deriving DecidableEq

structure GapMarker where
  exchange : String
  symbol : String
  gapCause : String
  ts : ℤ
deriving DecidableEq

structure OBSnapshot where
  exchange : String
  symbol : String
  ts : ℤ
  bestBid : ℚ
  bestAsk : ℚ
  midPrice : ℚ
deriving DecidableEq

structure Tick where
  exchange : String
  symbol : String
  ts : ℤ
  price : ℚ
  size : ℚ
  side : String
deriving DecidableEq

structure FundingRate where
  exchange : String
  symbol : String
  ts : ℤ
  fundingRate : ℚ
  nextFundingTs : ℤ
deriving DecidableEq

inductive BusEvent where
  | barClose (e : BarClose)
  | gap (e : GapMarker)
  | obSnapshot (e : OBSnapshot)
  | tick (e : Tick)
  | fundingRate (e : FundingRate)
deriving DecidableEq

/-! ### Parsing -/

/-- What ends the parsing of an entry. -/
inductive ParseError where
  | keyError (key : String)
  | valueError (text : String)
  | indexError
  | unknownType (eventType : String)
deriving DecidableEq

/-- What is logged for an entry that gives no event. -/
structure MissingField where
  streamKey : String
  error : ParseError
deriving DecidableEq

/-- The texts that `int` and `float` read. -/
structure PyNumbers where
  int : String → Option ℤ
  float : String → Option ℚ

abbrev Entry := List (String × String)

def split (s : String) (sep : Char) : List String := (s.toList.splitOn sep).map String.ofList

def part (parts : List String) (i : ℕ) : Except ParseError String :=
  match parts[i]? with
  | some s => .ok s
  | none => .error .indexError

def field (entry : Entry) (key : String) : Except ParseError String :=
  match entry.lookup key with
  | some s => .ok s
  | none => .error (.keyError key)

variable (P : PyNumbers)

def intField (entry : Entry) (key : String) : Except ParseError ℤ := do
  let s ← field entry key
  match P.int s with
  | some n => .ok n
  | none => .error (.valueError s)

def floatField (entry : Entry) (key : String) : Except ParseError ℚ := do
  let s ← field entry key
  match P.float s with
  | some x => .ok x
  | none => .error (.valueError s)

def parseBarClose (streamKey : String) (entry : Entry) : Except ParseError BarClose := do
  let parts := split streamKey ':'
  let first ← part parts 1
  -- The streams of closed bars have one part more.
  let i := if first = "close" then 2 else 1
  let exchange ← part parts i
  let symbol ← part parts (i + 1)
  let tf ← part parts (i + 2)
  let ts ← intField P entry "ts"
  let openPrice ← floatField P entry "open"
  let high ← floatField P entry "high"
  let low ← floatField P entry "low"
  let close ← floatField P entry "close"
  let volume ← floatField P entry "volume"
  let quoteVolume ← floatField P entry "quote_volume"
  let tradeCount ← intField P entry "trade_count"
  let isComplete ← field entry "is_complete"
  return { exchange, symbol, tf, ts, openPrice, high, low, close, volume, quoteVolume, tradeCount,
           isComplete := isComplete.toLower = "true" }

def parseTickOrGap (streamKey : String) (entry : Entry) : Except ParseError BusEvent := do
  let parts := split streamKey ':'
  let exchange ← part parts 1
  let symbol ← part parts 2
  let eventType ← field entry "type"
  if eventType = "tick" then
    let ts ← intField P entry "ts"
    let price ← floatField P entry "price"
    let size ← floatField P entry "size"
    let side ← field entry "side"
    return .tick { exchange, symbol, ts, price, size, side }
  else if eventType = "gap" then
    let gapCause ← field entry "gap_cause"
    let ts ← intField P entry "ts"
    return .gap { exchange, symbol, gapCause, ts }
  else
    .error (.unknownType eventType)

def parseObSnapshot (streamKey : String) (entry : Entry) : Except ParseError OBSnapshot := do
  let parts := split streamKey ':'
  let exchange ← part parts 1
  let symbol ← part parts 2
  let ts ← intField P entry "ts"
  let bestBid ← floatField P entry "best_bid"
  let bestAsk ← floatField P entry "best_ask"
  let midPrice ← floatField P entry "mid_price"
  return { exchange, symbol, ts, bestBid, bestAsk, midPrice }

def parseFundingRate (streamKey : String) (entry : Entry) : Except ParseError FundingRate := do
  let parts := split streamKey ':'
  let exchange ← part parts 1
  let symbol ← part parts 2
  let ts ← intField P entry "ts"
  let fundingRate ← floatField P entry "funding_rate"
  let nextFundingTs ← intField P entry "next_funding_ts"
  return { exchange, symbol, ts, fundingRate, nextFundingTs }

def startswith (s pre : String) : Bool := pre.toList.isPrefixOf s.toList

/-- The event, or what is logged. -/
def report (streamKey : String) : Except ParseError BusEvent → Option BusEvent × List MissingField
  | .ok event => (some event, [])
  | .error error => (none, [⟨streamKey, error⟩])

/-- Reads an entry.  For an unknown stream nothing is logged. -/
def parseStreamEntry (streamKey : String) (entry : Entry) : Option BusEvent × List MissingField :=
  if startswith streamKey "candles:" then
    report streamKey ((parseBarClose P streamKey entry).map .barClose)
  else if startswith streamKey "ob_features:" then
    report streamKey ((parseObSnapshot P streamKey entry).map .obSnapshot)
  else if startswith streamKey "ticks:" then report streamKey (parseTickOrGap P streamKey entry)
  else if startswith streamKey "funding:" then
    report streamKey ((parseFundingRate P streamKey entry).map .fundingRate)
  else (none, [])

/-! ### What an event is read from -/

/-- The whole numbers of an event, under the names of their fields. -/
def BusEvent.ints : BusEvent → List (String × ℤ)
  | .barClose e => [("ts", e.ts), ("trade_count", e.tradeCount)]
  | .gap e => [("ts", e.ts)]
  | .obSnapshot e => [("ts", e.ts)]
  | .tick e => [("ts", e.ts)]
  | .fundingRate e => [("ts", e.ts), ("next_funding_ts", e.nextFundingTs)]

/-- The other numbers. -/
def BusEvent.floats : BusEvent → List (String × ℚ)
  | .barClose e =>
      [("open", e.openPrice), ("high", e.high), ("low", e.low), ("close", e.close),
       ("volume", e.volume), ("quote_volume", e.quoteVolume)]
  | .gap _ => []
  | .obSnapshot e =>
      [("best_bid", e.bestBid), ("best_ask", e.bestAsk), ("mid_price", e.midPrice)]
  | .tick e => [("price", e.price), ("size", e.size)]
  | .fundingRate e => [("funding_rate", e.fundingRate)]

/-- Every number of the event is read from the field of its name. -/
structure ReadFrom (P : PyNumbers) (entry : Entry) (ev : BusEvent) : Prop where
  ints : ∀ kv ∈ ev.ints, intField P entry kv.1 = .ok kv.2
  floats : ∀ kv ∈ ev.floats, floatField P entry kv.1 = .ok kv.2

variable {P} {streamKey key : String} {entry : Entry}

theorem lookup_ne_none_of_field {s : String} (h : field entry key = .ok s) :
    entry.lookup key ≠ none := by
  intro hnone
  rw [field, hnone] at h
  cases h

theorem lookup_ne_none_of_intField {n : ℤ} (h : intField P entry key = .ok n) :
    entry.lookup key ≠ none := by
  obtain ⟨s, hs, -⟩ := bind_eq_ok.mp h
  exact lookup_ne_none_of_field hs

theorem lookup_ne_none_of_floatField {x : ℚ} (h : floatField P entry key = .ok x) :
    entry.lookup key ≠ none := by
  obtain ⟨s, hs, -⟩ := bind_eq_ok.mp h
  exact lookup_ne_none_of_field hs

theorem readFrom_parseBarClose {b : BarClose} (h : parseBarClose P streamKey entry = .ok b) :
    ReadFrom P entry (.barClose b) := by
  simp only [parseBarClose, bind_eq_ok] at h
  obtain ⟨_, -, _, -, _, -, _, -, ts, hts, openPrice, hopen, high, hhigh, low, hlow, close, hclose,
    volume, hvolume, quoteVolume, hquote, tradeCount, hcount, _, -, h⟩ := h
  obtain rfl := Except.ok.inj h
  constructor
  · simpa [BusEvent.ints] using ⟨hts, hcount⟩
  · simpa [BusEvent.floats] using ⟨hopen, hhigh, hlow, hclose, hvolume, hquote⟩

theorem readFrom_parseTickOrGap {ev : BusEvent} (h : parseTickOrGap P streamKey entry = .ok ev) :
    ReadFrom P entry ev := by
  simp only [parseTickOrGap, bind_eq_ok] at h
  obtain ⟨_, -, _, -, eventType, -, h⟩ := h
  split at h
  · simp only [bind_eq_ok] at h
    obtain ⟨ts, hts, price, hprice, size, hsize, _, -, h⟩ := h
    obtain rfl := Except.ok.inj h
    constructor
    · simpa [BusEvent.ints] using hts
    · simpa [BusEvent.floats] using ⟨hprice, hsize⟩
  · split at h
    · simp only [bind_eq_ok] at h
      obtain ⟨_, -, ts, hts, h⟩ := h
      obtain rfl := Except.ok.inj h
      constructor
      · simpa [BusEvent.ints] using hts
      · exact fun kv hkv => absurd hkv List.not_mem_nil
    · cases h

theorem readFrom_parseObSnapshot {o : OBSnapshot}
    (h : parseObSnapshot P streamKey entry = .ok o) : ReadFrom P entry (.obSnapshot o) := by
  simp only [parseObSnapshot, bind_eq_ok] at h
  obtain ⟨_, -, _, -, ts, hts, bestBid, hbid, bestAsk, hask, midPrice, hmid, h⟩ := h
  obtain rfl := Except.ok.inj h
  constructor
  · simpa [BusEvent.ints] using hts
  · simpa [BusEvent.floats] using ⟨hbid, hask, hmid⟩

theorem readFrom_parseFundingRate {f : FundingRate}
    (h : parseFundingRate P streamKey entry = .ok f) : ReadFrom P entry (.fundingRate f) := by
  simp only [parseFundingRate, bind_eq_ok] at h
  obtain ⟨_, -, _, -, ts, hts, rate, hrate, next, hnext, h⟩ := h
  obtain rfl := Except.ok.inj h
  constructor
  · simpa [BusEvent.ints] using ⟨hts, hnext⟩
  · simpa [BusEvent.floats] using hrate

theorem report_eq_some {α : Type} {x : Except ParseError α} {kind : α → BusEvent} {ev : BusEvent}
    (h : (report streamKey (x.map kind)).1 = some ev) : ∃ a, x = .ok a ∧ ev = kind a := by
  cases x with
  | error e => cases h
  | ok a => exact ⟨a, rfl, (Option.some.inj h).symm⟩

/-- An entry of a stream of bars gives a bar or nothing. -/
theorem parseStreamEntry_candles {ev : BusEvent} (hkey : startswith streamKey "candles:" = true)
    (h : (parseStreamEntry P streamKey entry).1 = some ev) :
    ∃ b, parseBarClose P streamKey entry = .ok b ∧ ev = .barClose b := by
  rw [parseStreamEntry, if_pos hkey] at h
  exact report_eq_some h

theorem parseStreamEntry_obFeatures {ev : BusEvent}
    (hkey : startswith streamKey "ob_features:" = true)
    (hother : startswith streamKey "candles:" = false)
    (h : (parseStreamEntry P streamKey entry).1 = some ev) :
    ∃ o, parseObSnapshot P streamKey entry = .ok o ∧ ev = .obSnapshot o := by
  rw [parseStreamEntry, hother, if_neg Bool.false_ne_true, if_pos hkey] at h
  exact report_eq_some h

/-- **What an entry is read as has its numbers from the entry's fields.** -/
theorem readFrom_parseStreamEntry {ev : BusEvent}
    (h : (parseStreamEntry P streamKey entry).1 = some ev) : ReadFrom P entry ev := by
  unfold parseStreamEntry at h
  split at h
  · obtain ⟨b, hb, rfl⟩ := report_eq_some h
    exact readFrom_parseBarClose hb
  · split at h
    · obtain ⟨o, ho, rfl⟩ := report_eq_some h
      exact readFrom_parseObSnapshot ho
    · split at h
      · cases hparsed : parseTickOrGap P streamKey entry with
        | error e => rw [hparsed] at h; cases h
        | ok ev' =>
            rw [hparsed] at h
            obtain rfl := Option.some.inj h
            exact readFrom_parseTickOrGap hparsed
      · split at h
        · obtain ⟨f, hf, rfl⟩ := report_eq_some h
          exact readFrom_parseFundingRate hf
        · cases h

theorem BusEvent.exists_ts (ev : BusEvent) : ∃ ts, ("ts", ts) ∈ ev.ints := by
  cases ev with
  | barClose e => exact ⟨e.ts, List.mem_cons_self⟩
  | gap e => exact ⟨e.ts, List.mem_cons_self⟩
  | obSnapshot e => exact ⟨e.ts, List.mem_cons_self⟩
  | tick e => exact ⟨e.ts, List.mem_cons_self⟩
  | fundingRate e => exact ⟨e.ts, List.mem_cons_self⟩

/-- Without one an entry gives nothing. -/
theorem parseStreamEntry_of_no_ts (h : entry.lookup "ts" = none) :
    (parseStreamEntry P streamKey entry).1 = none := by
  rw [Option.eq_none_iff_forall_ne_some]
  intro ev hev
  obtain ⟨ts, hts⟩ := ev.exists_ts
  exact lookup_ne_none_of_intField ((readFrom_parseStreamEntry hev).ints _ hts) h

/-- Whole numbers. -/
def wholeNumbers : PyNumbers where
  int s := (Strconv.readInt32 s)
  float s := (Strconv.readInt32 s).map fun n => (n : ℚ)

example : parseStreamEntry wholeNumbers "candles:close:bybit:BTC-USDT:1m"
      [("ts", "60000"), ("open", "7"), ("high", "9"), ("low", "7"), ("close", "8"),
       ("volume", "2"), ("quote_volume", "16"), ("trade_count", "1"), ("is_complete", "True")] =
    (some (.barClose ⟨"bybit", "BTC-USDT", "1m", 60000, 7, 9, 7, 8, 2, 16, 1, true⟩), []) := by
  decide +kernel

end MagnumOpus.Bot
