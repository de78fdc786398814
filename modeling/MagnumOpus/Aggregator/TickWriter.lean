import MagnumOpus.Aggregator.RedisWriter

/-! # The writer of the tick table

`Writer` of `questdb/writer.go` takes rows from any number of callers through a channel and hands
them to one sender, which keeps them until it is flushed.

* **Callers.** `Write` and `WriteGap` put a row into the channel or give up with their context;
  `Close` closes the channel `stop`.  They come at any moment, also while the goroutine is in
  `doFlush` and after it has ended.
* **The goroutine.** `run`, `drainAndClose` and `doFlush` are one state machine (`Phase`).  A call
  of the sender is one event, so that callers come between any two of them.
* **The sender.** `ILPSender` is what the writer relies on: a row it takes is in its buffer until a
  flush succeeds.  Everything else about it is free, and `FakeQuestDB` is one.
* **The books.** `Ledger` is what the run has shown: what was accepted, what was handed over, what
  the sender took since its last successful flush.  `Books` ties the writer to it. -/

namespace MagnumOpus.Aggregator.TickWriter

open EventMachine

/-- A value of the fields of a row. -/
inductive Value where
  | text (s : String)
  | int (n : Int64)
  | bool (b : Bool)
deriving DecidableEq

/-- The fields of a row of the tick table. -/
abbrev Row := List (String × Value)

def rawTicksTable : String := "raw_ticks"

def flushAuditStream : String := "questdb:flush:pending"

def flushAuditMaxLen : Int64 := 10000

/-- The row of `Write`. -/
def tickRow (tick : Tick) : Row :=
  [("exchange", .text tick.exchange),
   ("symbol", .text tick.symbol),
   ("seq", .int tick.seq.toInt64),
   ("ts_exchange", .int tick.tsExchange),
   ("ts_local", .int tick.tsLocal),
   ("side", .text tick.side),
   ("price", .text tick.price),
   ("size", .text tick.size),
   ("event_type", .text tick.type.text),
   ("is_gap", .bool false),
   ("gap_cause", .text "")]

/-- The row of `WriteGap`. -/
def gapRow (exch : String) (sym : Symbol) (gap : GapEvent) : Row :=
  [("exchange", .text exch),
   ("symbol", .text sym),
   ("seq", .int gap.seqAfter.toInt64),
   ("ts_exchange", .int gap.timestamp),
   ("ts_local", .int gap.timestamp),
   ("side", .text ""),
   ("price", .text "0"),
   ("size", .text "0"),
   ("event_type", .text "gap"),
   ("is_gap", .bool true),
   ("gap_cause", .text gap.cause.text)]

/-! ### The sender -/

/-- A sender with states `σ`, to which `ν` happens from outside.  A call returns the next state and
whether its error is `nil`. -/
structure ILPSender (σ ν : Type) where
  /-- As `New` receives it. -/
  fresh : σ
  write : σ → String → Row → σ × Bool
  flush : σ → σ × Bool
  close : σ → σ
  outside : σ → ν → σ
  /-- The rows it holds, with their tables. -/
  buffer : σ → List (String × Row)
  buffer_fresh : buffer fresh = []
  buffer_write : ∀ s table row, buffer (write s table row).1 =
    if (write s table row).2 then buffer s ++ [(table, row)] else buffer s
  buffer_flush : ∀ s, buffer (flush s).1 = if (flush s).2 then [] else buffer s
  buffer_outside : ∀ s n, buffer (outside s n) = buffer s

/-- The sender of the tests, which is its own WAL. -/
structure FakeQuestDB where
  rows : List (String × Row) := []
  walSuspend : Bool := false
  /-- When positive: a flush that brings `committed` there suspends the WAL. -/
  suspendAfter : ℤ := 0
  committed : ℕ := 0
deriving DecidableEq

namespace FakeQuestDB

def write (f : FakeQuestDB) (table : String) (fields : Row) : FakeQuestDB × Bool :=
  ({ f with rows := f.rows ++ [(table, fields)] }, true)

def flush (f : FakeQuestDB) : FakeQuestDB × Bool :=
  if f.walSuspend then (f, false)
  else
    let committed := f.committed + f.rows.length
    ({ f with
        rows := []
        committed
        walSuspend := decide (0 < f.suspendAfter ∧ f.suspendAfter ≤ committed) }, true)

/-- `SuspendWAL` and `ResumeWAL`. -/
def setSuspended (f : FakeQuestDB) (suspended : Bool) : FakeQuestDB :=
  { f with walSuspend := suspended }

theorem rows_write (f : FakeQuestDB) (table : String) (fields : Row) :
    (f.write table fields).1.rows =
      if (f.write table fields).2 then f.rows ++ [(table, fields)] else f.rows := rfl

theorem rows_flush (f : FakeQuestDB) :
    f.flush.1.rows = if f.flush.2 then [] else f.rows := by
  unfold flush
  cases f.walSuspend with
  | false => rfl
  | true => rfl

theorem rows_setSuspended (f : FakeQuestDB) (suspended : Bool) :
    (f.setSuspended suspended).rows = f.rows := rfl

/-- The fake keeps its rows as the writer expects of a sender. -/
def sender (suspendAfter : ℤ) : ILPSender FakeQuestDB Bool where
  fresh := { suspendAfter }
  write := write
  flush := flush
  close := id
  outside := setSuspended
  buffer := rows
  buffer_fresh := rfl
  buffer_write := rows_write
  buffer_flush := rows_flush
  buffer_outside := rows_setSuspended

end FakeQuestDB

/-! ### The state and the events -/

/-- A reading of the clock, in nanoseconds. -/
abbrev Time := ℤ

def Time.unixMilli (t : Time) : Int64 := Int64.ofInt (t.fdiv 1000000)

/-- Which loop has called `doFlush`. -/
inductive Caller where
  | run
  | drainAndClose
deriving DecidableEq

/-- Where the sender goroutine is. -/
inductive Phase where
  | run
  | drainAndClose
  /-- In the loop of `doFlush`, before a call of `Flush`. -/
  | doFlush (attempt : ℕ) (deadline : Time) (caller : Caller)
  | done
deriving DecidableEq

structure Writer (σ : Type) where
  sender : σ
  maxFlushRetryDur : Int64
  /-- What is in the channel. -/
  rows : List Row := []
  /-- The channel `stop` is closed. -/
  stop : Bool := false
  /-- A Go `int`: the rows it counts are in memory, so it does not reach `2 ^ 63`. -/
  pendingCount : ℕ := 0
  phase : Phase := .run
  /-- The process has panicked. -/
  crashed : Bool := false

inductive Event (ν : Type) where
  /-- `Write` offers its row to the channel. -/
  | write (tick : Tick)
  | writeGap (exch : String) (sym : Symbol) (gap : GapEvent)
  /-- The context of a `Write` or a `WriteGap` is done before the row is in the channel. -/
  | ctxDone
  | close
  /-- The goroutine takes the case of `stop`, of `rows`, of a ticker, or the default. -/
  | stop
  | receive
  | flushTick (ts now : Time)
  | walTick (wal : Option Bool)
  | empty (ts now : Time)
  /-- It calls `Flush`, and reads the clock afterwards. -/
  | flush (now : Time) (wal : Option Bool)
  | outside (n : ν)

inductive Effect where
  /-- `Write` or `WriteGap` has put its row into the channel and returns `nil`. -/
  | returned (row : Row)
  | refused
  | closed
  | panicked
  /-- `sender.Write`; `ok` when its error is `nil`. -/
  | sent (table : String) (row : Row) (ok : Bool)
  | flushed (ok : Bool)
  | senderClosed
  | xadd (stream : String) (fields : Fields) (maxLen : Int64)
  /-- The callback, where one is set. -/
  | onWALSuspended
  | resumeWAL
  /-- Sleeps for `backoff.Duration(attempt, clock)`. -/
  | slept (attempt : ℕ)
deriving DecidableEq

/-! ### The writer -/

/-- `New` and `Start`. -/
def start {σ ν : Type} (S : ILPSender σ ν) (maxFlushRetryDur : Int64) : Writer σ :=
  { sender := S.fresh, maxFlushRetryDur }

/-- What `checkWAL` does; `none` when the check itself fails. -/
def checkWAL : Option Bool → List Effect
  | some true => [.onWALSuspended, .resumeWAL]
  | some false => []
  | none => []

/-- The entry that `doFlush` begins with. -/
def flushBegin (count : ℕ) (ts : Time) : Fields :=
  [("type", "flush-begin"),
   ("row_count", count.repr),
   ("ts", Strconv.formatInt ts.unixMilli)]

def flushComplete (ts : Time) : Fields :=
  [("type", "flush-complete"),
   ("ts", Strconv.formatInt ts.unixMilli)]

namespace Writer

variable {σ ν : Type}

/-- A caller puts a row into the channel, or waits while it is full. -/
def put (w : Writer σ) (row : Row) : Writer σ × List Effect :=
  if w.rows.length < 1000 then ({ w with rows := w.rows ++ [row] }, [.returned row]) else (w, [])

/-- `Close`: closing a closed channel panics. -/
def close (w : Writer σ) : Writer σ × List Effect :=
  if w.stop then ({ w with crashed := true }, [.panicked]) else ({ w with stop := true }, [.closed])

/-- The case of `rows`, the same in both loops. -/
def receive (S : ILPSender σ ν) (w : Writer σ) : Writer σ × List Effect :=
  match w.rows with
  | [] => (w, [])
  | row :: rows =>
      let (sender, ok) := S.write w.sender rawTicksTable row
      ({ w with
          sender
          rows
          pendingCount := if ok then w.pendingCount + 1 else w.pendingCount },
        [.sent rawTicksTable row ok])

/-- `doFlush`, up to its loop. -/
def beginFlush (w : Writer σ) (caller : Caller) (ts now : Time) : Writer σ × List Effect :=
  ({ w with phase := .doFlush 0 (now + w.maxFlushRetryDur.toInt) caller },
    [.xadd flushAuditStream (flushBegin w.pendingCount ts) flushAuditMaxLen])

/-- Goes on after `doFlush`: the end of `drainAndClose` closes the sender. -/
def resume (S : ILPSender σ ν) (w : Writer σ) : Caller → Writer σ × List Effect
  | .run => ({ w with phase := .run }, [])
  | .drainAndClose => ({ w with phase := .done, sender := S.close w.sender }, [.senderClosed])

/-- One turn of the loop of `doFlush`. -/
def attemptFlush (S : ILPSender σ ν) (w : Writer σ) (attempt : ℕ) (deadline : Time)
    (caller : Caller) (now : Time) (wal : Option Bool) : Writer σ × List Effect :=
  let (sender, ok) := S.flush w.sender
  if ok then
    let (w', after) := resume S { w with sender, pendingCount := 0 } caller
    (w', .flushed true :: .xadd flushAuditStream (flushComplete now) flushAuditMaxLen :: after)
  else if now < deadline then
    ({ w with sender, phase := .doFlush (attempt + 1) deadline caller },
      .flushed false :: (checkWAL wal ++ [.slept attempt]))
  else
    -- The retries are exhausted: `pendingCount` stays.
    let (w', after) := resume S { w with sender } caller
    (w', .flushed false :: after)

/-- A turn of the goroutine.  A case that it does not wait for is not taken. -/
def goroutine (S : ILPSender σ ν) (w : Writer σ) : Phase → Event ν → Writer σ × List Effect
  | .run, .stop => if w.stop then ({ w with phase := .drainAndClose }, []) else (w, [])
  | .run, .receive => receive S w
  | .run, .flushTick ts now => if 0 < w.pendingCount then beginFlush w .run ts now else (w, [])
  | .run, .walTick wal => (w, checkWAL wal)
  | .drainAndClose, .receive => receive S w
  | .drainAndClose, .empty ts now =>
      if w.rows = [] then
        if 0 < w.pendingCount then beginFlush w .drainAndClose ts now
        else resume S w .drainAndClose
      else (w, [])
  | .doFlush attempt deadline caller, .flush now wal =>
      attemptFlush S w attempt deadline caller now wal
  | _, _ => (w, [])

/-- One event, in a process that runs. -/
def live (S : ILPSender σ ν) (w : Writer σ) : Event ν → Writer σ × List Effect
  | .write tick => put w (tickRow tick)
  | .writeGap exch sym gap => put w (gapRow exch sym gap)
  | .ctxDone => (w, [.refused])
  | .close => close w
  | .outside n => ({ w with sender := S.outside w.sender n }, [])
  | e => goroutine S w w.phase e

/-- One event. -/
def step (S : ILPSender σ ν) (w : Writer σ) (e : Event ν) : Writer σ × List Effect :=
  if w.crashed then (w, []) else live S w e

/-! How a turn of `doFlush` ends -/

variable {S : ILPSender σ ν} {w : Writer σ} {attempt : ℕ} {deadline now : Time} {caller : Caller}
  {wal : Option Bool}

theorem attemptFlush_ok (hok : (S.flush w.sender).2 = true) :
    attemptFlush S w attempt deadline caller now wal =
      ((resume S { w with sender := (S.flush w.sender).1, pendingCount := 0 } caller).1,
        .flushed true :: .xadd flushAuditStream (flushComplete now) flushAuditMaxLen ::
          (resume S { w with sender := (S.flush w.sender).1, pendingCount := 0 } caller).2) := by
  unfold attemptFlush
  exact if_pos hok

theorem attemptFlush_retry (hfailed : (S.flush w.sender).2 = false) (hnow : now < deadline) :
    attemptFlush S w attempt deadline caller now wal =
      ({ w with
          sender := (S.flush w.sender).1
          phase := .doFlush (attempt + 1) deadline caller },
        .flushed false :: (checkWAL wal ++ [.slept attempt])) := by
  unfold attemptFlush
  exact (if_neg (by simp [hfailed])).trans (if_pos hnow)

theorem attemptFlush_exhausted (hfailed : (S.flush w.sender).2 = false) (hnow : ¬ now < deadline) :
    attemptFlush S w attempt deadline caller now wal =
      ((resume S { w with sender := (S.flush w.sender).1 } caller).1,
        .flushed false :: (resume S { w with sender := (S.flush w.sender).1 } caller).2) := by
  unfold attemptFlush
  exact (if_neg (by simp [hfailed])).trans (if_neg hnow)

end Writer

/-! ### The books -/

/-- What a run has shown. -/
structure Ledger where
  /-- The rows for which `Write` or `WriteGap` has returned `nil`. -/
  accepted : List Row := []
  closed : Bool := false
  /-- Those that were accepted before `Close` was called. -/
  owed : List Row := []
  /-- The rows `sender.Write` was called with, whatever it returned. -/
  handed : List Row := []
  /-- The number of rows that the sender has accepted since its last successful flush. -/
  unflushed : ℕ := 0
deriving DecidableEq

def Ledger.record (l : Ledger) : Effect → Ledger
  | .returned row =>
      { l with
          accepted := l.accepted ++ [row]
          owed := if l.closed then l.owed else l.owed ++ [row] }
  | .closed => { l with closed := true }
  | .sent _ row ok =>
      { l with
          handed := l.handed ++ [row]
          unflushed := if ok then l.unflushed + 1 else l.unflushed }
  | .flushed ok => { l with unflushed := if ok then 0 else l.unflushed }
  | _ => l

def ledger (effects : List Effect) : Ledger := effects.foldl Ledger.record {}

/-- The goroutine has seen that `stop` is closed. -/
def Phase.Draining : Phase → Prop
  | .run => False
  | .drainAndClose => True
  | .doFlush _ _ caller => caller = .drainAndClose
  | .done => True

/-- The goroutine has found the channel empty after that. -/
def Phase.Drained : Phase → Prop
  | .run => False
  | .drainAndClose => False
  | .doFlush _ _ caller => caller = .drainAndClose
  | .done => True

theorem Phase.Drained.draining : ∀ {p : Phase}, p.Drained → p.Draining
  | .doFlush _ _ _, h => h
  | .done, _ => trivial

variable {σ ν : Type} {S : ILPSender σ ν} {l : Ledger} {w : Writer σ}

/-- The writer keeps to its ledger. -/
structure Books (S : ILPSender σ ν) (l : Ledger) (w : Writer σ) : Prop where
  accepted : l.accepted = l.handed ++ w.rows
  counted : w.pendingCount = l.unflushed
  /-- After the end the sender has been closed. -/
  buffered : w.phase ≠ .done → (S.buffer w.sender).length = l.unflushed
  closed : l.closed = w.stop
  owed : l.owed <+: l.accepted
  owed_open : w.stop = false → l.owed = l.accepted
  draining : w.phase.Draining → w.stop = true
  drained : w.phase.Drained → l.owed <+: l.handed

theorem books_start (S : ILPSender σ ν) (maxFlushRetryDur : Int64) :
    Books S {} (start S maxFlushRetryDur) where
  accepted := rfl
  counted := rfl
  buffered := fun _ => by rw [start, S.buffer_fresh]; rfl
  closed := rfl
  owed := List.prefix_refl _
  owed_open := fun _ => rfl
  draining := False.elim
  drained := False.elim

namespace Books

theorem put (h : Books S l w) (row : Row) :
    Books S ((w.put row).2.foldl Ledger.record l) (w.put row).1 := by
  unfold Writer.put
  split
  · exact
      { accepted := by simp [Ledger.record, h.accepted]
        counted := h.counted
        buffered := h.buffered
        closed := h.closed
        owed := by
          cases hstop : w.stop with
          | false => simp [Ledger.record, h.closed, hstop, h.owed_open hstop]
          | true =>
              simpa [Ledger.record, h.closed, hstop] using h.owed.trans (List.prefix_append _ _)
        owed_open := by
          intro hstop
          have hopen : w.stop = false := hstop
          simp [Ledger.record, h.closed, hopen, h.owed_open hopen]
        draining := h.draining
        drained := by
          intro hdrained
          have hstop := h.draining hdrained.draining
          simpa [Ledger.record, h.closed, hstop] using h.drained hdrained }
  · exact h

theorem close (h : Books S l w) :
    Books S (w.close.2.foldl Ledger.record l) w.close.1 := by
  unfold Writer.close
  split
  · exact { h with }
  · exact
      { h with
        closed := rfl
        owed_open := fun hstop => absurd hstop (by simp)
        draining := fun _ => rfl }

theorem outside (h : Books S l w) (n : ν) :
    Books S l { w with sender := S.outside w.sender n } :=
  { h with buffered := fun hphase => by rw [S.buffer_outside]; exact h.buffered hphase }

theorem receive (h : Books S l w) (hphase : ¬ w.phase.Drained) :
    Books S ((w.receive S).2.foldl Ledger.record l) (w.receive S).1 := by
  unfold Writer.receive
  split
  · exact h
  · next row rows hrows =>
      exact
        { h with
          accepted := by simp [Ledger.record, h.accepted, hrows]
          counted := by simp [Ledger.record, h.counted]
          buffered := by
            intro hdone
            have hlength := h.buffered hdone
            simp only [List.foldl_cons, List.foldl_nil, Ledger.record, S.buffer_write]
            split
            · rw [List.length_append, hlength]
              rfl
            · exact hlength
          drained := fun hdrained => absurd hdrained hphase }

theorem beginFlush (h : Books S l w) {caller : Caller} (hphase : w.phase ≠ .done)
    (hcaller : caller = .drainAndClose → w.stop = true ∧ l.owed <+: l.handed) (ts now : Time) :
    Books S ((w.beginFlush caller ts now).2.foldl Ledger.record l)
      (w.beginFlush caller ts now).1 :=
  { h with
    buffered := fun _ => h.buffered hphase
    draining := fun hdraining => (hcaller hdraining).1
    drained := fun hdrained => (hcaller hdrained).2 }

theorem resume (h : Books S l w) {caller : Caller} (hphase : w.phase ≠ .done)
    (hcaller : caller = .drainAndClose → w.stop = true ∧ l.owed <+: l.handed) :
    Books S ((w.resume S caller).2.foldl Ledger.record l) (w.resume S caller).1 := by
  cases caller with
  | run =>
      exact
        { h with
          buffered := fun _ => h.buffered hphase
          draining := False.elim
          drained := False.elim }
  | drainAndClose =>
      exact
        { h with
          buffered := fun hdone => absurd rfl hdone
          draining := fun _ => (hcaller rfl).1
          drained := fun _ => (hcaller rfl).2 }

/-- `checkWAL` and the sleep leave the books alone. -/
theorem foldl_checkWAL (l : Ledger) (wal : Option Bool) :
    (checkWAL wal).foldl Ledger.record l = l := by
  cases wal with
  | none => rfl
  | some suspended =>
      cases suspended with
      | false => rfl
      | true => rfl

theorem attemptFlush (h : Books S l w) {attempt : ℕ} {deadline : Time} {caller : Caller}
    (hphase : w.phase = .doFlush attempt deadline caller) (now : Time) (wal : Option Bool) :
    Books S ((w.attemptFlush S attempt deadline caller now wal).2.foldl Ledger.record l)
      (w.attemptFlush S attempt deadline caller now wal).1 := by
  have hdone : w.phase ≠ .done := by rw [hphase]; simp
  have hcaller : caller = .drainAndClose → w.stop = true ∧ l.owed <+: l.handed := fun hdrain =>
    ⟨h.draining (by rw [hphase]; exact hdrain), h.drained (by rw [hphase]; exact hdrain)⟩
  have hbuffer := S.buffer_flush w.sender
  cases hok : (S.flush w.sender).2 with
  | true =>
      rw [hok, if_pos rfl] at hbuffer
      rw [Writer.attemptFlush_ok hok]
      have hflushed : Books S (l.record (.flushed true))
          { w with sender := (S.flush w.sender).1, pendingCount := 0 } :=
        { h with
          counted := rfl
          buffered := fun _ => congrArg List.length hbuffer }
      exact hflushed.resume hdone hcaller
  | false =>
      rw [hok, if_neg Bool.false_ne_true] at hbuffer
      have hfailed :
          Books S (l.record (.flushed false)) { w with sender := (S.flush w.sender).1 } :=
        { h with
          buffered := fun _ => (congrArg List.length hbuffer).trans (h.buffered hdone) }
      by_cases hnow : now < deadline
      · rw [Writer.attemptFlush_retry hok hnow]
        simp only [List.foldl_cons, List.foldl_append, foldl_checkWAL, List.foldl_nil]
        exact
          { hfailed with
            buffered := fun _ => hfailed.buffered hdone
            draining := fun hdraining => (hcaller hdraining).1
            drained := fun hdrained => (hcaller hdrained).2 }
      · rw [Writer.attemptFlush_exhausted hok hnow]
        exact hfailed.resume hdone hcaller

theorem goroutine (h : Books S l w) (e : Event ν) :
    Books S ((w.goroutine S w.phase e).2.foldl Ledger.record l) (w.goroutine S w.phase e).1 := by
  generalize hphase : w.phase = p
  unfold Writer.goroutine
  split
  · -- `stop`
    split
    · next hstop =>
        exact
          { h with
            buffered := fun _ => h.buffered (by rw [hphase]; simp)
            draining := fun _ => hstop
            drained := False.elim }
    · exact h
  · exact h.receive (by rw [hphase]; exact id)
  · -- The ticker of the flushes.
    split
    · exact h.beginFlush (by rw [hphase]; simp) (fun hcaller => absurd hcaller (by simp)) _ _
    · exact h
  · rw [foldl_checkWAL]
    exact h
  · exact h.receive (by rw [hphase]; exact id)
  · -- The channel is empty: what was accepted has been handed over.
    split
    · next hrows =>
        have hdone : w.phase ≠ .done := by rw [hphase]; simp
        have hhanded : l.owed <+: l.handed := by
          simpa [h.accepted, hrows] using h.owed
        have hstop : w.stop = true := h.draining (by rw [hphase]; trivial)
        split
        · exact h.beginFlush hdone (fun _ => ⟨hstop, hhanded⟩) _ _
        · exact h.resume hdone fun _ => ⟨hstop, hhanded⟩
    · exact h
  · exact h.attemptFlush hphase _ _
  · exact h

theorem step (h : Books S l w) (e : Event ν) :
    Books S ((Writer.step S w e).2.foldl Ledger.record l) (Writer.step S w e).1 := by
  unfold Writer.step
  split
  · exact h
  · cases e with
    | write tick => exact h.put _
    | writeGap exch sym gap => exact h.put _
    | ctxDone => exact h
    | close => exact h.close
    | outside n => exact h.outside n
    | stop => exact h.goroutine .stop
    | receive => exact h.goroutine .receive
    | flushTick ts now => exact h.goroutine (.flushTick ts now)
    | walTick wal => exact h.goroutine (.walTick wal)
    | empty ts now => exact h.goroutine (.empty ts now)
    | flush now wal => exact h.goroutine (.flush now wal)

end Books

/-- The books are right after every run. -/
theorem books_run (S : ILPSender σ ν) (maxFlushRetryDur : Int64) (es : List (Event ν)) :
    Books S (ledger (trace (Writer.step S) (start S maxFlushRetryDur) es))
      (final (Writer.step S) (start S maxFlushRetryDur) es) :=
  foldl_trace_invariant (f := Ledger.record) (I := Books S) (fun _ _ e h => h.step e) es
    (books_start S maxFlushRetryDur)

/-! ### The audit entries -/

/-- The fields are those of a `flush-begin` entry. -/
def BeginsFlush (fields : Fields) : Prop := fields.lookup "type" = some "flush-begin"

theorem lookup_flushBegin (count : ℕ) (ts : Time) :
    (flushBegin count ts).lookup "row_count" = some count.repr := rfl

theorem not_beginsFlush_flushComplete (ts : Time) : ¬ BeginsFlush (flushComplete ts) := by
  show ¬ some "flush-complete" = some "flush-begin"
  decide

section audit

variable {stream : String} {fields : Fields} {maxLen : Int64}

theorem xadd_notMem_put (w : Writer σ) (row : Row) :
    .xadd stream fields maxLen ∉ (w.put row).2 := by
  unfold Writer.put
  split
  · simp
  · exact List.not_mem_nil

theorem xadd_notMem_close (w : Writer σ) : .xadd stream fields maxLen ∉ w.close.2 := by
  unfold Writer.close
  split
  · simp
  · simp

theorem xadd_notMem_receive (w : Writer σ) : .xadd stream fields maxLen ∉ (w.receive S).2 := by
  unfold Writer.receive
  split
  · exact List.not_mem_nil
  · simp

theorem xadd_notMem_checkWAL (wal : Option Bool) : .xadd stream fields maxLen ∉ checkWAL wal := by
  unfold checkWAL
  split
  · simp
  · exact List.not_mem_nil
  · exact List.not_mem_nil

theorem xadd_notMem_resume (w : Writer σ) (caller : Caller) :
    .xadd stream fields maxLen ∉ (w.resume S caller).2 := by
  cases caller with
  | run => exact List.not_mem_nil
  | drainAndClose => simp [Writer.resume]

theorem eq_flushComplete_of_mem {attempt : ℕ} {deadline now : Time} {caller : Caller}
    {wal : Option Bool} (hmem : .xadd stream fields maxLen ∈
      (w.attemptFlush S attempt deadline caller now wal).2) : fields = flushComplete now := by
  cases hok : (S.flush w.sender).2 with
  | true =>
      rw [Writer.attemptFlush_ok hok] at hmem
      rcases List.mem_cons.mp hmem with h | h
      · exact absurd h (by simp)
      · rcases List.mem_cons.mp h with h | h
        · exact (Effect.xadd.inj h).2.1
        · exact absurd h (xadd_notMem_resume _ _)
  | false =>
      by_cases hnow : now < deadline
      · rw [Writer.attemptFlush_retry hok hnow] at hmem
        rcases List.mem_cons.mp hmem with h | h
        · exact absurd h (by simp)
        · rcases List.mem_append.mp h with h | h
          · exact absurd h (xadd_notMem_checkWAL _)
          · exact absurd h (by simp)
      · rw [Writer.attemptFlush_exhausted hok hnow] at hmem
        rcases List.mem_cons.mp hmem with h | h
        · exact absurd h (by simp)
        · exact absurd h (xadd_notMem_resume _ _)

/-- What is audited as the begin of a flush is `pendingCount`, and the sender is not called. -/
structure Begun (w w' : Writer σ) (fields : Fields) : Prop where
  phase : w.phase ≠ .done
  sender : w'.sender = w.sender
  fields : ∃ ts, fields = flushBegin w.pendingCount ts

theorem begun_of_mem_beginFlush {caller : Caller} {ts now : Time} (hphase : w.phase ≠ .done)
    (hmem : .xadd stream fields maxLen ∈ (w.beginFlush caller ts now).2) :
    Begun w (w.beginFlush caller ts now).1 fields where
  phase := hphase
  sender := rfl
  fields := ⟨ts, (Effect.xadd.inj (List.mem_singleton.mp hmem)).2.1⟩

theorem begun_of_mem_goroutine {e : Event ν}
    (hmem : .xadd stream fields maxLen ∈ (w.goroutine S w.phase e).2)
    (hbegins : BeginsFlush fields) : Begun w (w.goroutine S w.phase e).1 fields := by
  generalize hphase : w.phase = p at hmem ⊢
  unfold Writer.goroutine at hmem ⊢
  split at hmem
  · split at hmem
    · exact absurd hmem List.not_mem_nil
    · exact absurd hmem List.not_mem_nil
  · exact absurd hmem (xadd_notMem_receive w)
  · split at hmem
    · next hpending =>
        rw [if_pos hpending]
        exact begun_of_mem_beginFlush (by rw [hphase]; simp) hmem
    · exact absurd hmem List.not_mem_nil
  · exact absurd hmem (xadd_notMem_checkWAL _)
  · exact absurd hmem (xadd_notMem_receive w)
  · split at hmem
    · next hrows =>
        split at hmem
        · next hpending =>
            rw [if_pos hrows, if_pos hpending]
            exact begun_of_mem_beginFlush (by rw [hphase]; simp) hmem
        · exact absurd hmem (xadd_notMem_resume _ _)
    · exact absurd hmem List.not_mem_nil
  · rw [eq_flushComplete_of_mem hmem] at hbegins
    exact absurd hbegins (not_beginsFlush_flushComplete _)
  · exact absurd hmem List.not_mem_nil

theorem begun_of_mem_step {e : Event ν} (hmem : .xadd stream fields maxLen ∈ (Writer.step S w e).2)
    (hbegins : BeginsFlush fields) : Begun w (Writer.step S w e).1 fields := by
  unfold Writer.step at hmem ⊢
  split at hmem
  · exact absurd hmem List.not_mem_nil
  · next hcrashed =>
      rw [if_neg hcrashed]
      cases e with
      | write tick => exact absurd hmem (xadd_notMem_put w _)
      | writeGap exch sym gap => exact absurd hmem (xadd_notMem_put w _)
      | ctxDone => exact absurd hmem (by simp [Writer.live])
      | close => exact absurd hmem (xadd_notMem_close w)
      | outside n => exact absurd hmem List.not_mem_nil
      | stop => exact begun_of_mem_goroutine hmem hbegins
      | receive => exact begun_of_mem_goroutine hmem hbegins
      | flushTick ts now => exact begun_of_mem_goroutine hmem hbegins
      | walTick wal => exact begun_of_mem_goroutine hmem hbegins
      | empty ts now => exact begun_of_mem_goroutine hmem hbegins
      | flush now wal => exact begun_of_mem_goroutine hmem hbegins

end audit

/-! ### The end -/

/-- The goroutine gets on: neither a ticker nor an attempt to flush that fails before the deadline.
-/
def Moves (S : ILPSender σ ν) (w : Writer σ) (e : Event ν) : Prop :=
  w.crashed = false ∧
    match w.phase, e with
    | .run, .stop => w.stop = true
    | .run, .receive => w.rows ≠ []
    | .drainAndClose, .receive => w.rows ≠ []
    | .drainAndClose, .empty _ _ => w.rows = []
    | .doFlush _ deadline _, .flush now _ => (S.flush w.sender).2 = true ∨ deadline ≤ now
    | _, _ => False

/-- How many moves there are at most, when no row is added. -/
def rank (w : Writer σ) : ℕ :=
  match w.phase with
  | .doFlush _ _ .run => w.rows.length + 4
  | .run => w.rows.length + 3
  | .drainAndClose => w.rows.length + 2
  | .doFlush _ _ .drainAndClose => 1
  | .done => 0

theorem rank_le (w : Writer σ) : rank w ≤ w.rows.length + 4 := by
  unfold rank
  split <;> omega

/-- Once `Close` has been called the goroutine has a move, until it is done. -/
theorem exists_moves (S : ILPSender σ ν) (hcrashed : w.crashed = false) (hstop : w.stop = true)
    (hphase : w.phase ≠ .done) : ∃ e, Moves S w e := by
  unfold Moves
  cases hp : w.phase with
  | run => exact ⟨.stop, hcrashed, hstop⟩
  | drainAndClose =>
      by_cases hrows : w.rows = []
      · exact ⟨.empty 0 0, hcrashed, hrows⟩
      · exact ⟨.receive, hcrashed, hrows⟩
  | doFlush attempt deadline caller =>
      exact ⟨.flush deadline none, hcrashed, Or.inr (Int.le_refl _)⟩
  | done => exact absurd hp hphase

/-- A move closes nothing, breaks nothing, and gets nearer to the end. -/
structure Advances (w w' : Writer σ) : Prop where
  stop : w'.stop = w.stop
  crashed : w'.crashed = w.crashed
  rank : rank w' < rank w

theorem advances_receive (hphase : w.phase = .run ∨ w.phase = .drainAndClose)
    (hrows : w.rows ≠ []) : Advances w (w.receive S).1 := by
  unfold Writer.receive
  split
  · next hnil => exact absurd hnil hrows
  · next row rows hcons =>
      refine ⟨rfl, rfl, ?_⟩
      rcases hphase with h | h
      · simp [rank, h, hcons]
      · simp [rank, h, hcons]

theorem advances_resume {w' : Writer σ} {attempt : ℕ} {deadline : Time} {caller : Caller}
    (hphase : w.phase = .doFlush attempt deadline caller) (hstop : w'.stop = w.stop)
    (hcrashed : w'.crashed = w.crashed) (hrows : w'.rows = w.rows) :
    Advances w (w'.resume S caller).1 := by
  cases caller with
  | run => exact ⟨hstop, hcrashed, by simp [rank, Writer.resume, hphase, hrows]⟩
  | drainAndClose => exact ⟨hstop, hcrashed, by simp [rank, Writer.resume, hphase]⟩

theorem advances_attemptFlush {attempt : ℕ} {deadline now : Time} {caller : Caller}
    {wal : Option Bool} (hphase : w.phase = .doFlush attempt deadline caller)
    (hends : (S.flush w.sender).2 = true ∨ deadline ≤ now) :
    Advances w (w.attemptFlush S attempt deadline caller now wal).1 := by
  cases hok : (S.flush w.sender).2 with
  | true =>
      rw [Writer.attemptFlush_ok hok]
      exact advances_resume hphase rfl rfl rfl
  | false =>
      have hlate : ¬ now < deadline := by
        rw [hok] at hends
        exact not_lt.mpr (hends.resolve_left Bool.false_ne_true)
      rw [Writer.attemptFlush_exhausted hok hlate]
      exact advances_resume hphase rfl rfl rfl

theorem Moves.advances {e : Event ν} (h : Moves S w e) : Advances w (Writer.step S w e).1 := by
  obtain ⟨hcrashed, hmove⟩ := h
  have hlive : Writer.step S w e = w.live S e := if_neg (by simp [hcrashed])
  rw [hlive]
  generalize hphase : w.phase = p at hmove
  split at hmove
  · -- `stop`
    have hgo : (w.live S (.stop : Event ν)).1 = { w with phase := .drainAndClose } := by
      simp only [Writer.live, hphase, Writer.goroutine, if_pos hmove]
    rw [hgo]
    exact ⟨rfl, rfl, by simp [rank, hphase]⟩
  · have hgo : w.live S (.receive : Event ν) = w.receive S := by
      simp only [Writer.live, hphase, Writer.goroutine]
    rw [hgo]
    exact advances_receive (Or.inl hphase) hmove
  · have hgo : w.live S (.receive : Event ν) = w.receive S := by
      simp only [Writer.live, hphase, Writer.goroutine]
    rw [hgo]
    exact advances_receive (Or.inr hphase) hmove
  · -- The channel is empty.
    simp only [Writer.live, hphase, Writer.goroutine, if_pos hmove]
    split
    · exact ⟨rfl, rfl, by simp [rank, Writer.beginFlush, hphase]⟩
    · exact ⟨rfl, rfl, by simp [rank, Writer.resume, hphase]⟩
  · simp only [Writer.live, hphase, Writer.goroutine]
    exact advances_attemptFlush hphase hmove
  · exact hmove.elim

/-- After `Close` there are at most so many moves, and where there is none left the goroutine is
done. -/
theorem moves_end (hcrashed : w.crashed = false) (hstop : w.stop = true) {fs : List (Event ν)}
    (hmoves : Along (Writer.step S) (Moves S) w fs) :
    fs.length ≤ w.rows.length + 4 ∧
      ((∀ e, ¬ Moves S (final (Writer.step S) w fs) e) →
        (final (Writer.step S) w fs).phase = .done) := by
  constructor
  · have hrank := length_add_rank_le (I := fun _ => True)
      (fun _ _ _ h => ⟨trivial, h.advances.rank⟩) fs trivial hmoves
    have := rank_le w
    omega
  · intro hstuck
    have hopen := final_invariant_along (I := fun w : Writer σ => w.crashed = false ∧ w.stop = true)
      (fun w e hw h => ⟨h.advances.crashed.trans hw.1, h.advances.stop.trans hw.2⟩) fs
      ⟨hcrashed, hstop⟩ hmoves
    by_contra hphase
    obtain ⟨e, he⟩ := exists_moves S hopen.1 hopen.2 hphase
    exact hstuck e he

/-! ### The account of a run -/

/-- What a run that has come to `w` has shown. -/
structure Accounted (S : ILPSender σ ν) (w : Writer σ) (l : Ledger) : Prop where
  /-- Each accepted row is handed to the sender once, in the order of acceptance, or is still in the
  channel behind those that were. -/
  in_order : l.accepted = l.handed ++ w.rows
  /-- At the end all the rows are handed over that were accepted before `Close` was called. -/
  at_end : w.phase = .done → l.owed <+: l.handed
  /-- After `Close` the goroutine comes to its end in so many moves. -/
  ends : w.crashed = false → w.stop = true →
    ∀ fs, Along (Writer.step S) (Moves S) w fs → fs.length ≤ w.rows.length + 4 ∧
      ((∀ e, ¬ Moves S (final (Writer.step S) w fs) e) →
        (final (Writer.step S) w fs).phase = .done)
  pending : w.pendingCount = l.unflushed
  /-- An entry that begins a flush counts what the sender holds, and leaves the sender alone. -/
  row_count : ∀ e stream fields maxLen,
    .xadd stream fields maxLen ∈ (Writer.step S w e).2 → BeginsFlush fields →
      fields.lookup "row_count" = some (S.buffer w.sender).length.repr ∧
        (Writer.step S w e).1.sender = w.sender

/-- **Accounting.** Every run of the writer, whatever its callers, its tickers, its clock and its
sender do, is accounted for. -/
theorem accounted_run (S : ILPSender σ ν) (maxFlushRetryDur : Int64) (es : List (Event ν)) :
    Accounted S (final (Writer.step S) (start S maxFlushRetryDur) es)
      (ledger (trace (Writer.step S) (start S maxFlushRetryDur) es)) := by
  have hbooks := books_run S maxFlushRetryDur es
  exact
    { in_order := hbooks.accepted
      at_end := fun hdone => hbooks.drained (by rw [hdone]; trivial)
      ends := fun hcrashed hstop _ hmoves => moves_end hcrashed hstop hmoves
      pending := hbooks.counted
      row_count := by
        intro e stream fields maxLen hmem hbegins
        obtain ⟨hphase, hsender, ts, rfl⟩ := begun_of_mem_step hmem hbegins
        rw [hbooks.buffered hphase, ← hbooks.counted]
        exact ⟨lookup_flushBegin _ _, hsender⟩ }

/-- A row whose flush is given up while the WAL is suspended is committed when the writer closes. -/
example :
    let gap : GapEvent := ⟨.externalDisconnect, 1, 3, 0⟩
    let w := final (Writer.step (FakeQuestDB.sender 0)) (start (FakeQuestDB.sender 0) 0)
      [.writeGap "kucoin" "BTC-USDT" gap, .receive, .outside true, .flushTick 0 0, .flush 0 none,
        .close, .outside false, .stop, .empty 0 0, .flush 0 none]
    w.phase = .done ∧ w.sender.committed = 1 ∧ w.pendingCount = 0 :=
  by decide

end MagnumOpus.Aggregator.TickWriter
