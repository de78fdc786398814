import MagnumOpus.Aggregator.Worker
import MagnumOpus.Lib.LossyQueue
import Mathlib.Logic.Function.Basic

/-! # From the exchange reader to the workers

The ticks of an exchange pass a channel of the adapter (`sendTick` of `kucoin.go`, `SendTick` of
`mux.go`), the fan-out of the coordinator (`runTickFanout`), and the delta channel of their symbol.
No sender waits: what a channel has no room for is dropped.

* **Losses.** The channels are lossy queues, so the place of a dropped tick stays visible; the code
  knows nothing of it.  A line is `silent` when order-book ticks of its symbol have been lost and no
  gap marker has been written since.
* **Interleavings.** The reader, the fan-out and the workers are goroutines; an event is what one
  of them does between two channel operations.

The signals of an exchange are left out: they are only logged. -/

namespace MagnumOpus.Aggregator

open EventMachine LossyQueue

/-- The room of an adapter's channel. -/
def tickBuf : ℕ := 4096

/-- The room of a symbol's delta channel. -/
def deltaChanCap : ℕ := 256

/-- The delta channel of a symbol, and the worker that reads it. -/
structure Line where
  deltas : List (Place Tick)
  worker : Worker
  /-- Order-book ticks before the next one have been lost, and no marker has been written since. -/
  silent : Bool

structure Pipeline where
  exch : String
  /-- The channel of the adapter. -/
  ticks : List (Place Tick)
  /-- The tick that the fan-out has taken, with what was lost before it. -/
  held : Option (List Tick × Tick)
  /-- The symbols that are known to the fan-out. -/
  symMap : Symbol → Option Line

/-- Something that happens in the pipeline. -/
inductive PipelineEvent where
  /-- The exchange reader sends a tick. -/
  | read (t : Tick)
  /-- The fan-out takes the next tick. -/
  | receive
  /-- The fan-out sends the tick that it has taken. -/
  | route
  /-- A symbol is added, and its worker started. -/
  | add (sym : Symbol) (pub : Bool)
  /-- The worker of a symbol takes its next tick. -/
  | tick (sym : Symbol) (now : Int64) (panicAt : Option ℕ)
  | snapshot (sym : Symbol) (r : SnapshotResult) (answers : ℕ) (now : Int64) (panicAt : Option ℕ)
  | done (sym : Symbol) (now : Int64) (panicAt : Option ℕ)

/-- A turn of the worker of a symbol: its line and what it handles. -/
structure Turn where
  sym : Symbol
  line : Line
  event : Event

/-- The tick changes the order book. -/
def isOrderBook (t : Tick) : Bool := t.type ≠ .trade

namespace Pipeline

def new (exch : String) : Pipeline := ⟨exch, [], none, fun _ => none⟩

def setLine (p : Pipeline) (sym : Symbol) (line : Line) : Pipeline :=
  { p with symMap := Function.update p.symMap sym (some line) }

@[simp] theorem symMap_setLine (p : Pipeline) (sym : Symbol) (line : Line) :
    (p.setLine sym line).symMap sym = some line := by
  simp [setLine]

theorem symMap_setLine_of_ne (p : Pipeline) {sym sym' : Symbol} (h : sym' ≠ sym) (line : Line) :
    (p.setLine sym line).symMap sym' = p.symMap sym' := by
  simp [setLine, h]

/-! ### Sending -/

def sendTick (p : Pipeline) (t : Tick) : Pipeline := { p with ticks := send tickBuf p.ticks t }

def receive (p : Pipeline) : Pipeline :=
  match p.held, LossyQueue.receive p.ticks with
  | none, some (lost, t, rest) => { p with ticks := rest, held := some (lost, t) }
  | _, _ => p

/-- The mark of a lost tick goes the way of the tick. -/
def mark (p : Pipeline) (t : Tick) : Pipeline :=
  match p.symMap t.symbol with
  | none => p
  | some line => p.setLine t.symbol { line with deltas := line.deltas ++ [.lost t] }

/-- Sends a tick to the channel of its symbol; without one it is ignored. -/
def deliver (p : Pipeline) (t : Tick) : Pipeline :=
  match p.symMap t.symbol with
  | none => p
  | some line => p.setLine t.symbol { line with deltas := send deltaChanCap line.deltas t }

def route (p : Pipeline) : Pipeline :=
  match p.held with
  | none => p
  | some (lost, t) => (lost.foldl mark { p with held := none }).deliver t

def addSymbol (p : Pipeline) (sym : Symbol) (pub : Bool) : Pipeline × List (Symbol × Effect) :=
  match p.symMap sym with
  | some _ => (p, [])
  | none =>
      let started := Worker.start (.new p.exch sym pub)
      (p.setLine sym ⟨[], started.1, false⟩, started.2.map (sym, ·))

/-! ### Workers -/

/-- The line of a symbol whose worker is running. -/
def running (p : Pipeline) (sym : Symbol) : Option Line :=
  (p.symMap sym).filter fun line => !line.worker.returned

/-- The turn that an event gives to a worker. -/
def turnOf (p : Pipeline) : PipelineEvent → Option Turn
  | .tick sym now panicAt =>
      (p.running sym).bind fun line => (LossyQueue.receive line.deltas).map fun r =>
        ⟨sym, { line with deltas := r.2.2, silent := line.silent || r.1.any isOrderBook },
          { input := .tick r.2.1, now, panicAt }⟩
  | .snapshot sym r answers now panicAt =>
      (p.running sym).map fun line => ⟨sym, line, { input := .snapshot r answers, now, panicAt }⟩
  | .done sym now panicAt =>
      (p.running sym).map fun line => ⟨sym, line, { input := .done, now, panicAt }⟩
  | _ => none

/-- The line after a turn. -/
def afterTurn (turn : Turn) : Line :=
  { turn.line with
    worker := (turn.line.worker.step turn.event).1
    silent := turn.line.silent && !(turn.line.worker.step turn.event).2.any isGap }

def step : Step Pipeline PipelineEvent (Symbol × Effect) := fun p e =>
  match e with
  | .read t => (p.sendTick t, [])
  | .receive => (p.receive, [])
  | .route => (p.route, [])
  | .add sym pub => p.addSymbol sym pub
  | _ =>
      match p.turnOf e with
      | none => (p, [])
      | some turn => (p.setLine turn.sym (afterTurn turn),
          (turn.line.worker.step turn.event).2.map (turn.sym, ·))

end Pipeline

end MagnumOpus.Aggregator
