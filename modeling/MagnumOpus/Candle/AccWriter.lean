import MagnumOpus.Candle.Cascade

/-! # The bars of a symbol

`accWriter` in `main.go` owns the accumulators of a symbol: one for the running 1s bar, one each for
the running 1m and 15m bars, which see every tick as well, and the cascade, which sees the finished
1s bars.  `flush` finishes the 1s bar.  Depth snapshots, block trades, order counters, and what is
published or saved on the side are left out.

The writer of QuestDB answers every row with success or an error (`accepted`).  A row that it
accepts is written or, while the table is suspended, buffered. -/

namespace MagnumOpus.Candle

open Cascade UtcTime

structure AccWriter where
  acc : BarAccumulator
  acc1m : BarAccumulator
  acc15m : BarAccumulator
  engine : Engine
  cumDelta : ℚ := 0
  prevCumDelta : ℚ := 0
  prevClose : Option ℚ := none

/-- What a flush that was accepted has made. -/
structure Flushed where
  /-- The row of `snapshot_1s`. -/
  row : Bar
  /-- The bars that the cascade closed. -/
  closed : List Cascade.Bar := []
  /-- The row of `snapshot_1m`, when a minute has ended. -/
  bar1m : Option Bar := none
  /-- The row of `snapshot_15m`. -/
  bar15m : Option Bar := none
deriving DecidableEq

/-- The timeframes with an accumulator of their own. -/
inductive ParallelTF where
  | tf1m
  | tf15m
deriving DecidableEq

def ParallelTF.tf : ParallelTF → TF
  | .tf1m => .tf1m
  | .tf15m => .tf15m

def AccWriter.parallel (aw : AccWriter) : ParallelTF → BarAccumulator
  | .tf1m => aw.acc1m
  | .tf15m => aw.acc15m

def Flushed.parallel (f : Flushed) : ParallelTF → Option Bar
  | .tf1m => f.bar1m
  | .tf15m => f.bar15m

/-- The second that a wall-clock time lies in, in milliseconds. -/
def truncateSecond (nowMs : Int64) : Int64 := Int64.ofInt (nowMs.toInt / 1000 * 1000)

namespace AccWriter

def new (exchange symbol : String) : AccWriter where
  acc := .new exchange symbol
  acc1m := .new exchange symbol
  acc15m := .new exchange symbol
  engine := .new exchange symbol

def apply (N : Numerics) (aw : AccWriter) (price size : String) (isTrade : Bool) (side : String)
    (tsMs : Int64) (prev curr : BestQuote) : AccWriter :=
  { aw with
    acc := aw.acc.apply N price size isTrade side tsMs prev curr
    acc1m := aw.acc1m.apply N price size isTrade side tsMs prev curr
    acc15m := aw.acc15m.apply N price size isTrade side tsMs prev curr }

/-- The direction in which price and volume delta diverge. -/
def cvdDivergence (aw : AccWriter) (cumDelta : ℚ) (close prevClose : ℚ) : ℤ :=
  if prevClose < close ∧ cumDelta < aw.prevCumDelta then 1
  else if close < prevClose ∧ aw.prevCumDelta < cumDelta then -1
  else 0

/-- Adds the delta of a full bar with trades to the running one. -/
def addCumDelta (aw : AccWriter) (isPartial : Bool) (bar : Bar) : AccWriter × Bar :=
  match isPartial, bar.buyVolume, bar.sellVolume with
  | false, some buy, some sell =>
      let cumDelta := aw.cumDelta + (buy - sell)
      ({ aw with cumDelta, prevCumDelta := cumDelta, prevClose := bar.close },
        { bar with
          cumDelta := some cumDelta
          cvdDivergence := Option.map₂ (aw.cvdDivergence cumDelta) bar.close aw.prevClose })
  | _, _, _ => (aw, bar)

/-- Finishes the bar of a parallel accumulator when its timeframe closes; the row is labelled with
the time at which the timeframe began. -/
def flushTF (acc : BarAccumulator) (tf : TF) (tsSecMs : Int64) : BarAccumulator × Option Bar :=
  if isBarClose tsSecMs tf then
    let seeded := acc.seedFromLastKnown
    let barOpenMs := Int64.ofInt (truncate tf.seconds (unixSec tsSecMs) * 1000)
    (seeded.barReset, some { seeded.currentBar tsSecMs false with tsSecMs := barOpenMs })
  else (acc, none)

/-- Finishes the running 1s bar.  A partial bar is written and nothing else; when the row is not
accepted the accumulators keep what they have. -/
def flush (aw : AccWriter) (isPartial : Bool) (nowMs : Int64) (accepted : Bool) :
    AccWriter × Option Flushed :=
  let tsSecMs := truncateSecond nowMs
  let acc := aw.acc.seedFromLastKnown
  let counted := { aw with acc }.addCumDelta isPartial (acc.currentBar tsSecMs isPartial)
  if accepted = false then (counted.1, none)
  else if isPartial then ({ counted.1 with acc := acc.barReset }, some { row := counted.2 })
  else
    let folded := counted.1.engine.fold counted.2 tsSecMs
    let minute := flushTF counted.1.acc1m .tf1m tsSecMs
    let quarter := flushTF counted.1.acc15m .tf15m tsSecMs
    ({ counted.1 with
       acc := acc.barReset
       acc1m := minute.1
       acc15m := quarter.1
       engine := folded.1 },
      some { row := counted.2, closed := folded.2, bar1m := minute.2, bar15m := quarter.2 })

def incrementGap (aw : AccWriter) : AccWriter :=
  { aw with
    acc := aw.acc.incrementGap
    acc1m := aw.acc1m.incrementGap
    acc15m := aw.acc15m.incrementGap
    cumDelta := 0
    prevCumDelta := 0
    prevClose := none }

/-- Starts over; the cascade goes on. -/
def reset (aw : AccWriter) : AccWriter :=
  { aw with
    acc := aw.acc.reset
    acc1m := aw.acc1m.reset.incrementGap
    acc15m := aw.acc15m.reset.incrementGap
    cumDelta := 0
    prevCumDelta := 0
    prevClose := none }

/-! ### What a flush does -/

variable {aw : AccWriter} {isPartial : Bool} {nowMs : Int64}

theorem addCumDelta_fst (aw : AccWriter) (isPartial : Bool) (bar : Bar) :
    (aw.addCumDelta isPartial bar).1.acc = aw.acc ∧
    (aw.addCumDelta isPartial bar).1.acc1m = aw.acc1m ∧
    (aw.addCumDelta isPartial bar).1.acc15m = aw.acc15m ∧
    (aw.addCumDelta isPartial bar).1.engine = aw.engine := by
  unfold addCumDelta
  split <;> exact ⟨rfl, rfl, rfl, rfl⟩

theorem addCumDelta_snd (aw : AccWriter) (isPartial : Bool) (bar : Bar) : ∃ cumDelta cvdDivergence,
    (aw.addCumDelta isPartial bar).2 = { bar with cumDelta, cvdDivergence } := by
  unfold addCumDelta
  split
  · exact ⟨_, _, rfl⟩
  · exact ⟨bar.cumDelta, bar.cvdDivergence, rfl⟩

theorem trades_seedFromLastKnown (a : BarAccumulator) : a.seedFromLastKnown.trades = a.trades := by
  unfold BarAccumulator.seedFromLastKnown
  split <;> rfl

theorem key_seedFromLastKnown (a : BarAccumulator) :
    a.seedFromLastKnown.exchange = a.exchange ∧ a.seedFromLastKnown.symbol = a.symbol := by
  unfold BarAccumulator.seedFromLastKnown
  split <;> exact ⟨rfl, rfl⟩

/-- The trades of the accumulators, and the cascade, are the same. -/
structure SameTrades (aw aw' : AccWriter) : Prop where
  acc : aw'.acc.trades = aw.acc.trades
  parallel : ∀ p, (aw'.parallel p).trades = (aw.parallel p).trades
  engine : aw'.engine = aw.engine
  exchange : aw'.acc.exchange = aw.acc.exchange
  symbol : aw'.acc.symbol = aw.acc.symbol

theorem SameTrades.refl (aw : AccWriter) : SameTrades aw aw := ⟨rfl, fun _ => rfl, rfl, rfl, rfl⟩

theorem sameTrades_incrementGap (aw : AccWriter) : SameTrades aw aw.incrementGap where
  acc := rfl
  parallel p := by cases p <;> rfl
  engine := rfl
  exchange := rfl
  symbol := rfl

theorem flush_accepted (aw : AccWriter) (isPartial : Bool) (nowMs : Int64) :
    ∃ f, (aw.flush isPartial nowMs true).2 = some f := by
  cases isPartial <;> exact ⟨_, rfl⟩

/-- A row that is not accepted changes no trades. -/
theorem flush_rejected (aw : AccWriter) (isPartial : Bool) (nowMs : Int64) :
    (aw.flush isPartial nowMs false).2 = none ∧
      SameTrades aw (aw.flush isPartial nowMs false).1 := by
  simp only [flush, if_pos]
  obtain ⟨hacc, h1m, h15m, hengine⟩ := addCumDelta_fst
    { aw with acc := aw.acc.seedFromLastKnown } isPartial
    (aw.acc.seedFromLastKnown.currentBar (truncateSecond nowMs) isPartial)
  obtain ⟨hexchange, hsymbol⟩ := key_seedFromLastKnown aw.acc
  refine ⟨trivial, ?_⟩
  constructor
  case acc => rw [hacc, trades_seedFromLastKnown]
  case parallel =>
    intro p
    cases p
    · exact congrArg (·.trades) h1m
    · exact congrArg (·.trades) h15m
  case engine => exact hengine
  case exchange => rw [hacc, hexchange]
  case symbol => rw [hacc, hsymbol]

/-- The row of a bar: labelled with the second, the symbol and the summary of the trades. -/
structure IsRow (aw : AccWriter) (nowMs : Int64) (row : Bar) : Prop where
  tsSecMs : row.tsSecMs = truncateSecond nowMs
  exchange : row.exchange = aw.acc.exchange
  symbol : row.symbol = aw.acc.symbol
  ohlcv : row.ohlcv = aw.acc.trades.ohlcv

theorem isRow_addCumDelta (h : aw.acc.trades.Started) :
    IsRow aw nowMs ((AccWriter.addCumDelta { aw with acc := aw.acc.seedFromLastKnown } isPartial
      (aw.acc.seedFromLastKnown.currentBar (truncateSecond nowMs) isPartial)).2) := by
  obtain ⟨cumDelta, cvdDivergence, hbar⟩ := addCumDelta_snd
    { aw with acc := aw.acc.seedFromLastKnown } isPartial
    (aw.acc.seedFromLastKnown.currentBar (truncateSecond nowMs) isPartial)
  obtain ⟨hexchange, hsymbol⟩ := key_seedFromLastKnown aw.acc
  rw [hbar]
  constructor
  case tsSecMs => rfl
  case exchange => exact hexchange
  case symbol => exact hsymbol
  case ohlcv =>
    have hcurrent := ohlcv_currentBar (a := aw.acc.seedFromLastKnown)
      (by rwa [trades_seedFromLastKnown]) (truncateSecond nowMs) isPartial
    rw [trades_seedFromLastKnown] at hcurrent
    exact hcurrent

theorem isRow_currentBar (h : aw.acc.trades.Started) (nowMs : Int64) (isPartial : Bool) :
    IsRow aw nowMs (aw.acc.currentBar (truncateSecond nowMs) isPartial) :=
  ⟨rfl, rfl, rfl, ohlcv_currentBar h _ _⟩

/-- An accepted flush writes the row of the bar and clears it. -/
structure Cleared (aw aw' : AccWriter) (nowMs : Int64) (f : Flushed) : Prop where
  row : IsRow aw nowMs f.row
  acc : aw'.acc.trades = {}
  exchange : aw'.acc.exchange = aw.acc.exchange
  symbol : aw'.acc.symbol = aw.acc.symbol

theorem flush_partial (h : aw.acc.trades.Started) (nowMs : Int64) :
    ∃ f, (aw.flush true nowMs true).2 = some f ∧
      Cleared aw (aw.flush true nowMs true).1 nowMs f ∧
      f.closed = [] ∧ (∀ p, f.parallel p = none) ∧
      (aw.flush true nowMs true).1.engine = aw.engine ∧
      ∀ p, (aw.flush true nowMs true).1.parallel p = aw.parallel p := by
  obtain ⟨-, h1m, h15m, hengine⟩ := addCumDelta_fst
    { aw with acc := aw.acc.seedFromLastKnown } true
    (aw.acc.seedFromLastKnown.currentBar (truncateSecond nowMs) true)
  obtain ⟨hexchange, hsymbol⟩ := key_seedFromLastKnown aw.acc
  refine ⟨_, rfl, ⟨isRow_addCumDelta h, rfl, hexchange, hsymbol⟩, rfl, ?_, hengine, ?_⟩
  · intro p
    cases p <;> rfl
  · intro p
    cases p
    · exact h1m
    · exact h15m

/-- An accepted full flush folds the row into the cascade and finishes the parallel bars that
close. -/
theorem flush_full (h : aw.acc.trades.Started) (nowMs : Int64) :
    ∃ f, (aw.flush false nowMs true).2 = some f ∧
      Cleared aw (aw.flush false nowMs true).1 nowMs f ∧
      (aw.flush false nowMs true).1.engine = (aw.engine.fold f.row (truncateSecond nowMs)).1 ∧
      f.closed = (aw.engine.fold f.row (truncateSecond nowMs)).2 ∧
      ∀ p : ParallelTF,
        (aw.flush false nowMs true).1.parallel p =
          (flushTF (aw.parallel p) p.tf (truncateSecond nowMs)).1 ∧
        f.parallel p = (flushTF (aw.parallel p) p.tf (truncateSecond nowMs)).2 := by
  obtain ⟨-, h1m, h15m, hengine⟩ := addCumDelta_fst
    { aw with acc := aw.acc.seedFromLastKnown } false
    (aw.acc.seedFromLastKnown.currentBar (truncateSecond nowMs) false)
  obtain ⟨hexchange, hsymbol⟩ := key_seedFromLastKnown aw.acc
  refine ⟨_, rfl, ⟨isRow_addCumDelta h, rfl, hexchange, hsymbol⟩, ?_, ?_, ?_⟩
  · exact congrArg (fun e : Engine => (e.fold _ _).1) hengine
  · exact congrArg (fun e : Engine => (e.fold _ _).2) hengine
  · intro p
    cases p
    · exact ⟨congrArg (fun a => (flushTF a .tf1m _).1) h1m,
        congrArg (fun a => (flushTF a .tf1m _).2) h1m⟩
    · exact ⟨congrArg (fun a => (flushTF a .tf15m _).1) h15m,
        congrArg (fun a => (flushTF a .tf15m _).2) h15m⟩

/-! ### Recorded trades -/

/-- The trades of all accumulators have been recorded by `applyTrade` alone. -/
structure Started (aw : AccWriter) : Prop where
  acc : aw.acc.trades.Started
  parallel : ∀ p, (aw.parallel p).trades.Started

theorem started_new (exchange symbol : String) : (new exchange symbol).Started where
  acc := Trades.started_new
  parallel p := by cases p <;> exact Trades.started_new

theorem started_reset (aw : AccWriter) : aw.reset.Started where
  acc := Trades.started_new
  parallel p := by cases p <;> exact Trades.started_new

theorem Started.of_sameTrades {aw' : AccWriter} (h : aw.Started) (hsame : SameTrades aw aw') :
    aw'.Started where
  acc := by
    rw [hsame.acc]
    exact h.acc
  parallel p := by
    rw [hsame.parallel p]
    exact h.parallel p

theorem Started.apply {N : Numerics} (h : aw.Started) (price size : String) (isTrade : Bool)
    (side : String) (tsMs : Int64) (prev curr : BestQuote) :
    (aw.apply N price size isTrade side tsMs prev curr).Started where
  acc := (apply_trades aw.acc _ _ _ _ _ _ _ h.acc).1
  parallel p := by
    cases p
    · exact (apply_trades aw.acc1m _ _ _ _ _ _ _ (h.parallel .tf1m)).1
    · exact (apply_trades aw.acc15m _ _ _ _ _ _ _ (h.parallel .tf15m)).1

theorem Started.flush (h : aw.Started) (nowMs : Int64) : (aw.flush false nowMs true).1.Started := by
  obtain ⟨f, -, hcleared, -, -, hparallel⟩ := flush_full h.acc nowMs
  constructor
  · rw [hcleared.acc]
    exact Trades.started_new
  · intro p
    rw [(hparallel p).1]
    unfold flushTF
    split
    · exact Trades.started_new
    · exact h.parallel p

end AccWriter

end MagnumOpus.Candle
