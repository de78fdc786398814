import MagnumOpus.Candle.Consumer
import MagnumOpus.Candle.FullBar

/-! # The consumer with all values of its bars

`accWriter` in `main.go` and `handleMessage` in `consumer.go` once more, now with what `AccWriter`
and `Consumer` leave out: the depth of the book when a bar opens and closes, block trades with the
window that they are told by, and the order events.

* **Depth.** What is computed from the levels of a book depends on the order in which Go walks
  through a map, and is a parameter, as the best quote is.
* **Refinement.** Without what it adds, a consumer does what `Consumer` does (`core_handleMessage`,
  `core_handleBarClose`). -/

namespace MagnumOpus.Candle

open Cascade UtcTime

/-! ### Block trades -/

/-- The sizes of the latest trades. -/
structure BlockWindow where
  sizes : List ℚ := []
  windowSize : ℕ := 1000
  minSample : ℕ := 100
deriving DecidableEq

namespace BlockWindow

def add (w : BlockWindow) (size : ℚ) : BlockWindow :=
  { w with
    sizes := (if w.windowSize ≤ w.sizes.length then w.sizes.drop 1 else w.sizes) ++ [size] }

/-- The 99th percentile by the nearest rank, when there are enough sizes. -/
def threshold (w : BlockWindow) : Option ℚ :=
  if w.sizes.length < w.minSample then none
  else (w.sizes.insertionSort (· ≤ ·))[(99 * w.sizes.length + 99) / 100 - 1]?

end BlockWindow

/-- The kind of an order event. -/
inductive OBEventKind where
  | add
  | cancel
  | modify
deriving DecidableEq

namespace OrderBook

def hasLevel (ob : OrderBook) (side price : String) : Bool :=
  (if side = "buy" then ob.bids else ob.asks).lookup price |>.isSome

/-- The book has levels. -/
def hasLevels (ob : OrderBook) : Bool := ob.bids ≠ ∅ ∨ ob.asks ≠ ∅

end OrderBook

/-! ### The accumulators of a symbol -/

structure FullAccWriter where
  acc : FullAccumulator
  acc1m : FullAccumulator
  acc15m : FullAccumulator
  engine : Engine
  btw : BlockWindow := {}
  openDepthSet : Bool := false
  openDepthSet1m : Bool := false
  openDepthSet15m : Bool := false
  cumDelta : ℚ := 0
  prevCumDelta : ℚ := 0
  prevClose : Option ℚ := none

/-- What a flush that was accepted has made. -/
structure FullFlushed where
  row : FullBar
  closed : List Cascade.Bar := []
  bar1m : Option FullBar := none
  bar15m : Option FullBar := none

/-- Without the values that `Bar` leaves out. -/
def FullFlushed.core (f : FullFlushed) : Flushed where
  row := f.row.toBar
  closed := f.closed
  bar1m := f.bar1m.map FullBar.toBar
  bar15m := f.bar15m.map FullBar.toBar

namespace FullAccWriter

variable (N : Numerics) (F : Features) (depth : OrderBook → DepthSnapshot)

def new (exchange symbol : String) : FullAccWriter where
  acc := .new exchange symbol
  acc1m := .new exchange symbol
  acc15m := .new exchange symbol
  engine := .new exchange symbol

/-- Without what the accumulators add to those of `AccWriter`. -/
def core (aw : FullAccWriter) : AccWriter where
  acc := aw.acc.toBarAccumulator
  acc1m := aw.acc1m.toBarAccumulator
  acc15m := aw.acc15m.toBarAccumulator
  engine := aw.engine
  cumDelta := aw.cumDelta
  prevCumDelta := aw.prevCumDelta
  prevClose := aw.prevClose

/-- The depth when the bar opens is that at its first tick with a quote. -/
def setOpenDepths (aw : FullAccWriter) (d : DepthSnapshot) : FullAccWriter :=
  { aw with
    acc := if aw.openDepthSet then aw.acc else aw.acc.setOpenDepth d
    acc1m := if aw.openDepthSet1m then aw.acc1m else aw.acc1m.setOpenDepth d
    acc15m := if aw.openDepthSet15m then aw.acc15m else aw.acc15m.setOpenDepth d
    openDepthSet := true
    openDepthSet1m := true
    openDepthSet15m := true }

/-- A trade joins the window, and counts as a block trade when it is above the threshold. -/
def addTrade (aw : FullAccWriter) (side : String) (size : ℚ) : FullAccWriter :=
  let btw := aw.btw.add size
  if btw.threshold.any (· < size) then
    { aw with
      btw
      acc := aw.acc.applyBlockTrade side size
      acc1m := aw.acc1m.applyBlockTrade side size
      acc15m := aw.acc15m.applyBlockTrade side size }
  else { aw with btw }

/-- Applies a tick; `book` is the book after it. -/
def apply (aw : FullAccWriter) (book : OrderBook) (price size : String) (isTrade : Bool)
    (side : String) (tsMs : Int64) (prev curr : BestQuote) : FullAccWriter :=
  let applied := { aw with
    acc := aw.acc.apply N price size isTrade side tsMs prev curr
    acc1m := aw.acc1m.apply N price size isTrade side tsMs prev curr
    acc15m := aw.acc15m.apply N price size isTrade side tsMs prev curr }
  let opened := if curr.Complete then applied.setOpenDepths (depth book) else applied
  match isTrade, N.parseFloat size with
  | true, some s => if 0 < s then opened.addTrade side s else opened
  | _, _ => opened

def applyOBEvent (aw : FullAccWriter) (kind : OBEventKind) (side : String) (size : ℚ) :
    FullAccWriter :=
  let event (a : FullAccumulator) : FullAccumulator := match kind with
    | .add => a.incrementOBAdd side size
    | .cancel => a.incrementOBCancel side
    | .modify => a.incrementOBModify
  { aw with acc := event aw.acc, acc1m := event aw.acc1m, acc15m := event aw.acc15m }

/-- What a bar that ends takes from the book. -/
def close (a : FullAccumulator) (book : OrderBook) : FullAccumulator :=
  (if book.hasLevels then a.setCloseDepth (depth book) else a).seedFromLastKnown

/-- Adds the delta of a full bar with trades to the running one. -/
def addCumDelta (aw : FullAccWriter) (isPartial : Bool) (bar : FullBar) : FullAccWriter × FullBar :=
  let counted := aw.core.addCumDelta isPartial bar.toBar
  ({ aw with
     cumDelta := counted.1.cumDelta
     prevCumDelta := counted.1.prevCumDelta
     prevClose := counted.1.prevClose },
    { bar with cumDelta := counted.2.cumDelta, cvdDivergence := counted.2.cvdDivergence })

/-- Finishes the bar of a parallel accumulator when its timeframe closes. -/
def flushTF (acc : FullAccumulator) (tf : TF) (book : OrderBook) (tsSecMs : Int64) :
    FullAccumulator × Option FullBar :=
  if isBarClose tsSecMs tf then
    let closed := close depth acc book
    let barOpenMs := Int64.ofInt (truncate tf.seconds (unixSec tsSecMs) * 1000)
    (closed.barReset, some { closed.currentBar F tsSecMs false with tsSecMs := barOpenMs })
  else (acc, none)

/-- Finishes the running 1s bar. -/
def flush (aw : FullAccWriter) (book : OrderBook) (isPartial : Bool) (nowMs : Int64)
    (accepted : Bool) : FullAccWriter × Option FullFlushed :=
  let tsSecMs := truncateSecond nowMs
  let acc := close depth aw.acc book
  let counted := { aw with acc }.addCumDelta isPartial (acc.currentBar F tsSecMs isPartial)
  if accepted = false then (counted.1, none)
  else if isPartial then
    ({ counted.1 with acc := acc.barReset, openDepthSet := false }, some { row := counted.2 })
  else
    let folded := counted.1.engine.fold counted.2.toBar tsSecMs
    let minute := flushTF F depth counted.1.acc1m .tf1m book tsSecMs
    let quarter := flushTF F depth counted.1.acc15m .tf15m book tsSecMs
    ({ counted.1 with
       acc := acc.barReset
       acc1m := minute.1
       acc15m := quarter.1
       engine := folded.1
       openDepthSet := false
       openDepthSet1m := counted.1.openDepthSet1m && minute.2.isNone
       openDepthSet15m := counted.1.openDepthSet15m && quarter.2.isNone },
      some { row := counted.2, closed := folded.2, bar1m := minute.2, bar15m := quarter.2 })

def incrementGap (aw : FullAccWriter) : FullAccWriter :=
  { aw with
    acc := aw.acc.incrementGap
    acc1m := aw.acc1m.incrementGap
    acc15m := aw.acc15m.incrementGap
    cumDelta := 0
    prevCumDelta := 0
    prevClose := none }

/-- Starts over; the cascade and the window of block trades go on. -/
def reset (aw : FullAccWriter) : FullAccWriter :=
  { aw with
    acc := aw.acc.reset
    acc1m := aw.acc1m.reset.incrementGap
    acc15m := aw.acc15m.reset.incrementGap
    openDepthSet := false
    openDepthSet1m := false
    openDepthSet15m := false
    cumDelta := 0
    prevCumDelta := 0
    prevClose := none }

end FullAccWriter

/-! ### The consumer -/

structure FullConsumer where
  exchange : String
  symbol : String
  book : OrderBook
  aw : FullAccWriter
  seenIDs : List String := []
  tickCount : ℕ := 0
  hasNewTicks : Bool := false
  gapDedup : List (ℤ × String) := []
  exited : Bool := false
  /-- The last entry of the shadow mode, or nothing. -/
  lastShadowID : String := ""
  /-- Where the shadow mode reads on. -/
  xreadCursor : String := "0-0"

namespace FullConsumer

variable (N : Numerics) (F : Features) (bestQuote : OrderBook → BestQuote)
  (depth : OrderBook → DepthSnapshot)

def new (exchange symbol : String) (coldBufSize : ℕ) : FullConsumer where
  exchange := exchange
  symbol := symbol
  book := .new exchange symbol coldBufSize
  aw := .new exchange symbol

/-- Without what the accumulators add to those of `Consumer`. -/
def core (c : FullConsumer) : Consumer where
  exchange := c.exchange
  symbol := c.symbol
  book := c.book
  aw := c.aw.core
  seenIDs := c.seenIDs
  tickCount := c.tickCount
  hasNewTicks := c.hasNewTicks
  gapDedup := c.gapDedup
  exited := c.exited

def handleBarClose (c : FullConsumer) (calls : Calls) (nowMs : Int64) :
    FullConsumer × Option FullFlushed :=
  let flushed := c.aw.flush F depth c.book false nowMs calls.writeBar
  ({ c with aw := flushed.1, tickCount := 0, seenIDs := [] }, flushed.2)

/-- The event of a level that a tick changes; `book` is the book before it. -/
def obKind (book : OrderBook) (t : Tick) : OBEventKind :=
  if t.size = "0" then .cancel else if book.hasLevel t.side t.price then .modify else .add

/-- What a tick does to the book and to the accumulators. -/
def applyTick (c : FullConsumer) (t : Tick) : FullConsumer :=
  let book := (c.book.applyTick t).1
  let applied := c.aw.apply N depth book t.price t.size (t.level = 0) t.side t.tsMs
    (bestQuote c.book) (bestQuote book)
  { c with
    book
    aw := if t.level = 0 then applied
      else applied.applyOBEvent (obKind c.book t) t.side ((N.parseFloat t.size).getD 0) }

def handleTick (c : FullConsumer) (t : Tick) : FullConsumer :=
  { c.applyTick N bestQuote depth t with tickCount := c.tickCount + 1, hasNewTicks := true }

def handleGap (c : FullConsumer) (g : GapMarker) (calls : Calls) (nowMs : Int64) : FullConsumer :=
  if calls.zscore = false then { c with exited := true }
  else if c.core.isGapDup g then c
  else if calls.zadd = false then { c with exited := true }
  else
    let recorded :=
      { c with gapDedup := (c.core.recordGapDedup g nowMs calls.zremrangebyrank).gapDedup }
    if calls.zremrangebyrank = false then { recorded with exited := true }
    else { recorded with aw := c.aw.incrementGap, book := c.book.applyGap g }

def handleSnapshot (c : FullConsumer) (s : SnapshotEvent) (calls : Calls) (nowMs : Int64) :
    FullConsumer × Option FullFlushed :=
  let flushed :=
    if 0 < c.tickCount then c.aw.flush F depth c.book true nowMs calls.writeBar else (c.aw, none)
  ({ c with tickCount := 0, aw := flushed.1.reset, book := (c.book.applySnapshot s).1 }, flushed.2)

def handleMessage (c : FullConsumer) (m : Message) (calls : Calls) (nowMs : Int64) :
    FullConsumer × Option FullFlushed :=
  if m.id ∈ c.seenIDs then (c, none)
  else
    let seen := { c with seenIDs := m.id :: c.seenIDs }
    let parsed := parseMessage m.fields
    let isZeroVolume : Bool := match parsed with
      | .tick t => t.level = 0 ∧ t.size = "0"
      | _ => false
    if isZeroVolume then (seen, none)
    else if calls.xack = false then ({ c with exited := true }, none)
    else match parsed with
      | .tick t => (seen.handleTick N bestQuote depth t, none)
      | .gap g => (seen.handleGap g calls nowMs, none)
      | .snapshot s => seen.handleSnapshot F depth s calls nowMs
      | .unknown => (seen, none)

end FullConsumer

/-! ### Refinement -/

namespace FullAccWriter

variable {N : Numerics} {F : Features} {depth : OrderBook → DepthSnapshot} {aw : FullAccWriter}

theorem core_setOpenDepths (d : DepthSnapshot) : (aw.setOpenDepths d).core = aw.core := by
  unfold setOpenDepths core
  cases aw.openDepthSet <;> cases aw.openDepthSet1m <;> cases aw.openDepthSet15m <;> rfl

theorem core_addTrade (side : String) (size : ℚ) : (aw.addTrade side size).core = aw.core := by
  unfold addTrade
  dsimp only
  split <;> rfl

theorem core_apply (book : OrderBook) (price size : String) (isTrade : Bool) (side : String)
    (tsMs : Int64) (prev curr : BestQuote) :
    (aw.apply N depth book price size isTrade side tsMs prev curr).core =
      aw.core.apply N price size isTrade side tsMs prev curr := by
  unfold apply
  dsimp only
  have hopen : ∀ aw' : FullAccWriter,
      (if curr.Complete then aw'.setOpenDepths (depth book) else aw').core = aw'.core := by
    intro aw'
    split
    · exact core_setOpenDepths _
    · rfl
  split
  · split
    · rw [core_addTrade, hopen]
      rfl
    · rw [hopen]
      rfl
  · rw [hopen]
    rfl

theorem core_applyOBEvent (kind : OBEventKind) (side : String) (size : ℚ) :
    (aw.applyOBEvent kind side size).core = aw.core := by
  cases kind <;> rfl

theorem core_close (depth : OrderBook → DepthSnapshot) (a : FullAccumulator) (book : OrderBook) :
    (close depth a book).toBarAccumulator = a.toBarAccumulator.seedFromLastKnown := by
  unfold close
  split <;> rfl

theorem core_addCumDelta (aw : FullAccWriter) (isPartial : Bool) (bar : FullBar) :
    (aw.addCumDelta isPartial bar).1.core = (aw.core.addCumDelta isPartial bar.toBar).1 ∧
      (aw.addCumDelta isPartial bar).2.toBar = (aw.core.addCumDelta isPartial bar.toBar).2 := by
  unfold addCumDelta AccWriter.addCumDelta
  dsimp only
  split <;> exact ⟨rfl, rfl⟩

theorem core_flushTF (F : Features) (depth : OrderBook → DepthSnapshot) (acc : FullAccumulator)
    (tf : TF) (book : OrderBook) (tsSecMs : Int64) :
    (flushTF F depth acc tf book tsSecMs).1.toBarAccumulator =
        (AccWriter.flushTF acc.toBarAccumulator tf tsSecMs).1 ∧
      (flushTF F depth acc tf book tsSecMs).2.map FullBar.toBar =
        (AccWriter.flushTF acc.toBarAccumulator tf tsSecMs).2 := by
  unfold flushTF AccWriter.flushTF
  split
  · rw [← core_close depth acc book]
    exact ⟨rfl, rfl⟩
  · exact ⟨rfl, rfl⟩

theorem core_flush (F : Features) (depth : OrderBook → DepthSnapshot) (aw : FullAccWriter)
    (book : OrderBook) (isPartial : Bool) (nowMs : Int64) (accepted : Bool) :
    (aw.flush F depth book isPartial nowMs accepted).1.core =
        (aw.core.flush isPartial nowMs accepted).1 ∧
      (aw.flush F depth book isPartial nowMs accepted).2.map FullFlushed.core =
        (aw.core.flush isPartial nowMs accepted).2 := by
  -- The bar that ends has the same values in both.
  have hseed : aw.core.acc.seedFromLastKnown = (close depth aw.acc book).toBarAccumulator :=
    (core_close depth aw.acc book).symm
  obtain ⟨hcounted, hrow⟩ := core_addCumDelta { aw with acc := close depth aw.acc book }
    isPartial ((close depth aw.acc book).currentBar F (truncateSecond nowMs) isPartial)
  have hbar : ((close depth aw.acc book).currentBar F (truncateSecond nowMs) isPartial).toBar =
      (close depth aw.acc book).toBarAccumulator.currentBar (truncateSecond nowMs) isPartial := rfl
  have hcore : { aw with acc := close depth aw.acc book }.core =
      { aw.core with acc := (close depth aw.acc book).toBarAccumulator } := rfl
  rw [hbar, hcore] at hcounted hrow
  unfold flush AccWriter.flush
  dsimp only
  rw [hseed, ← hcounted, ← hrow]
  generalize addCumDelta _ isPartial _ = counted
  have hminute := core_flushTF F depth counted.1.acc1m .tf1m book (truncateSecond nowMs)
  have hquarter := core_flushTF F depth counted.1.acc15m .tf15m book (truncateSecond nowMs)
  have h1m : counted.1.core.acc1m = counted.1.acc1m.toBarAccumulator := rfl
  have h15m : counted.1.core.acc15m = counted.1.acc15m.toBarAccumulator := rfl
  rw [h1m, h15m, ← hminute.1, ← hminute.2, ← hquarter.1, ← hquarter.2]
  cases accepted with
  | false => exact ⟨rfl, rfl⟩
  | true =>
      cases isPartial with
      | true => exact ⟨rfl, rfl⟩
      | false => exact ⟨rfl, rfl⟩

theorem core_reset (aw : FullAccWriter) : aw.reset.core = aw.core.reset := rfl

theorem core_incrementGap (aw : FullAccWriter) : aw.incrementGap.core = aw.core.incrementGap := rfl

end FullAccWriter

namespace FullConsumer

variable {N : Numerics} {F : Features} {bestQuote : OrderBook → BestQuote}
  {depth : OrderBook → DepthSnapshot} {c : FullConsumer}

theorem core_handleBarClose (calls : Calls) (nowMs : Int64) :
    (c.handleBarClose F depth calls nowMs).1.core = (c.core.handleBarClose calls nowMs).1 ∧
      (c.handleBarClose F depth calls nowMs).2.toList.map (Output.flushed ∘ FullFlushed.core) =
        (c.core.handleBarClose calls nowMs).2 := by
  obtain ⟨haw, hflushed⟩ :=
    FullAccWriter.core_flush F depth c.aw c.book false nowMs calls.writeBar
  simp only [handleBarClose, Consumer.handleBarClose]
  have hcore : c.core.aw = c.aw.core := rfl
  rw [hcore, ← haw, ← hflushed]
  refine ⟨rfl, ?_⟩
  cases (c.aw.flush F depth c.book false nowMs calls.writeBar).2 <;> rfl

theorem core_handleTick (t : Tick) :
    (c.handleTick N bestQuote depth t).core = (c.core.handleTick N bestQuote t).1 := by
  have haw : (c.applyTick N bestQuote depth t).aw.core =
      c.aw.core.apply N t.price t.size (t.level = 0) t.side t.tsMs (bestQuote c.book)
        (bestQuote (c.book.applyTick t).1) := by
    unfold applyTick
    dsimp only
    split
    · exact FullAccWriter.core_apply _ _ _ _ _ _ _ _
    · rw [FullAccWriter.core_applyOBEvent]
      exact FullAccWriter.core_apply _ _ _ _ _ _ _ _
  simp only [handleTick, core, Consumer.handleTick]
  rw [haw]
  rfl

theorem core_handleGap (g : GapMarker) (calls : Calls) (nowMs : Int64) :
    (c.handleGap g calls nowMs).core = (c.core.handleGap g calls nowMs).1 := by
  unfold handleGap Consumer.handleGap
  split
  · rfl
  · split
    · rfl
    · split
      · rfl
      · dsimp only
        split <;> rfl

theorem core_handleSnapshot (s : SnapshotEvent) (calls : Calls) (nowMs : Int64) :
    (c.handleSnapshot F depth s calls nowMs).1.core =
      (c.core.handleSnapshot s calls nowMs).1 := by
  obtain ⟨haw, -⟩ := FullAccWriter.core_flush F depth c.aw c.book true nowMs calls.writeBar
  unfold handleSnapshot Consumer.handleSnapshot
  have hcore : c.core.aw = c.aw.core := rfl
  have hcount : c.core.tickCount = c.tickCount := rfl
  dsimp only
  rw [hcore, hcount]
  split
  · rw [← haw]
    rfl
  · rfl

/-- **Without what it adds, the consumer does what `Consumer` does.** -/
theorem core_handleMessage (c : FullConsumer) (m : Message) (calls : Calls) (nowMs : Int64) :
    (c.handleMessage N F bestQuote depth m calls nowMs).1.core =
      (c.core.handleMessage N bestQuote m calls nowMs).1 := by
  unfold handleMessage Consumer.handleMessage
  have hseen : c.core.seenIDs = c.seenIDs := rfl
  rw [hseen]
  split
  · rfl
  · -- What the entry is parsed to decides which handler takes it.
    cases parseMessage m.fields with
    | tick t =>
        dsimp only
        split
        · rfl
        · split
          · rfl
          · exact core_handleTick t
    | gap g =>
        dsimp only
        split
        · rfl
        · split
          · rfl
          · exact core_handleGap g calls nowMs
    | snapshot s =>
        dsimp only
        split
        · rfl
        · split
          · rfl
          · exact core_handleSnapshot s calls nowMs
    | unknown =>
        dsimp only
        split
        · rfl
        · split <;> rfl

end FullConsumer

end MagnumOpus.Candle
