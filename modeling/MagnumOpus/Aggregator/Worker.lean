import MagnumOpus.Aggregator.Exchange
import MagnumOpus.Aggregator.Reconnect

/-! # The worker of a symbol

`Worker` (`symbol.go`) wires the order book, the gap detector, the reconnect machine and the
writers of one symbol together.

* **Effects.** What a worker does to the world around it, and to its book, is listed in order
  (`Effect`).  Writers report failures to the log only, so the worker goes on in the same way.
* **Handlers.** A handler is a straight-line program, chosen when it is entered.
* **Panics.** Any of a handler's statements may panic (`Event.panicAt`): what came before it has
  been done, what comes after it has not, and `recovery` runs instead.
* **Runs.** `start` is the entry of the processing loop, `step` one turn of it.

Metrics and log lines are left out: nothing reads them back. -/

namespace MagnumOpus.Aggregator

open EventMachine Reconnect

/-! ### Gap detection -/

/-- The cause of a gap. -/
inductive Cause where
  | internalBufferOverflow
  | internalMergeError
  | externalDisconnect
  | externalRateLimit
deriving DecidableEq, Repr

/-- The field value of the stream. -/
def Cause.text : Cause → String
  | .internalBufferOverflow => "internal_buffer_overflow"
  | .internalMergeError => "internal_merge_error"
  | .externalDisconnect => "external_disconnect"
  | .externalRateLimit => "external_rate_limit"

/-- A hole in the sequence of a symbol. -/
structure GapEvent where
  cause : Cause
  seqBefore : UInt64
  seqAfter : UInt64
  /-- Nanoseconds. -/
  timestamp : Int64
deriving DecidableEq, Repr

/-- A gap, unless `next` follows `prev`. -/
def detect (prev next : UInt64) (cause : Cause) (now : Int64) : Option GapEvent :=
  if next = prev + 1 then none
  else some { cause, seqBefore := prev, seqAfter := next, timestamp := now }

/-! ### State, effects and events -/

/-- A completed REST snapshot. -/
structure SnapshotResult where
  seq : UInt64
  bids : Levels
  asks : Levels
deriving DecidableEq

/-- The book that a snapshot seeds. -/
def SnapshotResult.book (r : SnapshotResult) : OrderBook := ⟨r.seq, r.bids, r.asks⟩

structure Worker where
  exch : String
  sym : Symbol
  /-- Whether the book is published. -/
  pub : Bool
  book : OrderBook
  recon : Machine
  /-- The last sequence, for exchanges without message-level numbers. -/
  lastSeq : UInt64
  /-- The last `sequenceEnd`. -/
  lastMsgSeqEnd : UInt64
  /-- The processing loop has ended. -/
  returned : Bool
deriving DecidableEq

/-- Something the worker does. -/
inductive Effect where
  | applyDelta (d : Delta)
  | streamWrite (t : Tick)
  | streamGap (exch : String) (sym : Symbol) (g : GapEvent)
  | streamSnapshot (exch : String) (sym : Symbol) (seq : UInt64) (tsMs : Int64)
  | ilpWrite (t : Tick)
  | ilpGap (exch : String) (sym : Symbol) (g : GapEvent)
  | publish (exch : String) (sym : Symbol) (book : OrderBook) (t : Tick)
  | requestSnapshot (exch : String) (sym : Symbol) (signal : NeedsSnapshot)
deriving DecidableEq

/-- The gap markers of a stream. -/
def isGap : Effect → Bool
  | .streamGap _ _ _ => true
  | _ => false

/-- What the processing loop takes from its channels. -/
inductive Input where
  | tick (t : Tick)
  /-- A snapshot; `answers` is the number of the request it was fetched for, counted from the
  first one, which the worker does not see. -/
  | snapshot (r : SnapshotResult) (answers : ℕ)
  | done
deriving DecidableEq

/-- One turn of the processing loop. -/
structure Event where
  input : Input
  /-- The clock, in nanoseconds. -/
  now : Int64
  /-- How many statements of the handler are done when it panics, if it does. -/
  panicAt : Option ℕ := none
deriving DecidableEq

/-- Milliseconds, rounded down. -/
def unixMilli (ns : Int64) : Int64 := Int64.ofInt (ns.toInt.fdiv 1000000)

namespace Worker

/-! ### Statements -/

abbrev Body := List (Stmt Worker Effect)

def emit (e : Effect) : Stmt Worker Effect := fun w => (w, [e])

def update (f : Worker → Worker) : Stmt Worker Effect := fun w => (f w, [])

/-- Writes a gap to both writers. -/
def writeGap (g : GapEvent) : Body :=
  [fun w => (w, [.streamGap w.exch w.sym g]), fun w => (w, [.ilpGap w.exch w.sym g])]

/-- Hands a snapshot request to the dispatcher. -/
def requestSnapshot (signal : NeedsSnapshot) : Stmt Worker Effect :=
  fun w => (w, [.requestSnapshot w.exch w.sym signal])

/-- Puts the reconnect machine into `buffering`. -/
def needsSnapshotNow (reason : String) : Stmt Worker Effect :=
  update fun w => { w with recon := (w.recon.needsSnapshotNow reason).1 }

/-! ### Handlers -/

/-- The gap that a tick reveals. -/
def tickGap (w : Worker) (t : Tick) (now : Int64) : Option GapEvent :=
  if t.msgSeqEnd ≠ 0 then
    if 0 < t.msgSeqStart ∧ 0 < w.lastMsgSeqEnd then
      detect w.lastMsgSeqEnd t.msgSeqStart .externalDisconnect now
    else none
  else if 0 < w.lastSeq then
    detect w.lastSeq t.seq .externalDisconnect now
  else none

/-- Moves the sequence tracker that the tick's exchange uses. -/
def track (t : Tick) (w : Worker) : Worker :=
  if t.msgSeqEnd ≠ 0 then { w with lastMsgSeqEnd := t.msgSeqEnd } else { w with lastSeq := t.seq }

/-- Applies a tick's delta to the book. -/
def applyTick (t : Tick) : Stmt Worker Effect :=
  fun w => ({ w with book := w.book.apply t.delta }, [.applyDelta t.delta])

/-- Publishes the book after a tick. -/
def publishBook (t : Tick) : Stmt Worker Effect :=
  fun w => (w, if w.pub then [.publish w.exch w.sym w.book t] else [])

def handleTick (t : Tick) (now : Int64) (w : Worker) : Body :=
  -- Trades have a sequence space of their own: no gap detection, and dropped while buffering.
  if t.type = .trade then
    if w.recon.state ≠ .buffering then [emit (.streamWrite t), emit (.ilpWrite t)] else []
  else if w.recon.state = .buffering then
    [update fun w => { w with recon := w.recon.feed t.seq }]
  else
    (match w.tickGap t now with
      | some g => writeGap g
      | none => []) ++
    update (track t) ::
    ((if t.type = .update then [applyTick t] else []) ++
      [emit (.streamWrite t), emit (.ilpWrite t)] ++
      (if t.type = .update then [publishBook t] else []))

/-- The gap of unknown size that an internal error leaves behind. -/
def mergeErrorGap (w : Worker) (now : Int64) : GapEvent where
  cause := .internalMergeError
  seqBefore := w.lastSeq
  seqAfter := w.lastSeq + 1
  timestamp := now

def handleSnapshot (r : SnapshotResult) (now : Int64) (w : Worker) : Body :=
  -- A stale result that arrives when live would corrupt the book.
  if w.recon.state ≠ .buffering then []
  else
    update (fun w => { w with book := w.book.applySnapshot r.seq r.bids r.asks }) ::
    update (fun w => { w with recon := (w.recon.mergeSnapshot r.seq).1 }) ::
    (match (w.recon.mergeSnapshot r.seq).2.2 with
      | some signal => writeGap (w.mergeErrorGap now) ++ [requestSnapshot signal]
      | none =>
          -- The sequence numbers to replay are not used: no payloads are kept for them.
          [update fun w => { w with lastSeq := r.seq },
           update fun w => { w with lastMsgSeqEnd := r.seq },
           update fun w => { w with recon := w.recon.goLive },
           fun w => (w, [.streamSnapshot w.exch w.sym r.seq (unixMilli now)])])

/-- The shutdown of the loop; a snapshot still outstanding leaves a gap. -/
def handleDone (now : Int64) (w : Worker) : Body :=
  (if w.recon.state = .buffering then
    writeGap { cause := .externalDisconnect, seqBefore := w.lastSeq, seqAfter := w.lastSeq + 1,
               timestamp := now }
  else []) ++
  [update fun w => { w with returned := true }]

/-- What happens after a panic.  The result channel is drained here; a snapshot that is still
being fetched arrives later all the same. -/
def recovery (now : Int64) (w : Worker) : Body :=
  writeGap (w.mergeErrorGap now) ++
  [update fun w => { w with lastSeq := 0 },
   update fun w => { w with lastMsgSeqEnd := 0 },
   needsSnapshotNow "panic",
   requestSnapshot ⟨"panic"⟩]

/-! ### Runs -/

/-- A worker before its loop is entered. -/
def new (exch : String) (sym : Symbol) (pub : Bool) : Worker where
  exch := exch
  sym := sym
  pub := pub
  book := .new
  recon := .new
  lastSeq := 0
  lastMsgSeqEnd := 0
  returned := false

/-- The entry of the loop: a machine that has not asked for a snapshot yet asks for one. -/
def start (w : Worker) : Worker × List Effect :=
  exec (if w.recon.state = .initial then
      [needsSnapshotNow "initial", requestSnapshot ⟨"initial"⟩]
    else []) w

/-- The handler of an input. -/
def body (e : Event) (w : Worker) : Body :=
  match e.input with
  | .tick t => handleTick t e.now w
  | .snapshot r _ => handleSnapshot r e.now w
  | .done => handleDone e.now w

/-- A handler that panics after `k` statements, and the recovery from it. -/
def panicked (k : ℕ) (e : Event) (w : Worker) : Worker × List Effect :=
  let before := exec ((body e w).take k) w
  let after := exec (recovery e.now before.1) before.1
  -- A panic during shutdown ends the loop as well.
  ({ after.1 with returned := decide (e.input = .done) }, before.2 ++ after.2)

/-- One turn of the loop. -/
def step (w : Worker) (e : Event) : Worker × List Effect :=
  if w.returned then (w, [])
  else match e.panicAt with
    | none => exec (body e w) w
    | some k => panicked k e w

/-- The worker after the loop has been entered and has handled `es`. -/
def run (w : Worker) (es : List Event) : Worker := final step (start w).1 es

/-- Everything the worker does from the entry of the loop to the end of `es`. -/
def effects (w : Worker) (es : List Event) : List Effect :=
  (start w).2 ++ trace step (start w).1 es

end Worker

end MagnumOpus.Aggregator
