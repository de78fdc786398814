import Mathlib.Data.List.Sort
import MagnumOpus.Lib.EventMachine
import MagnumOpus.Candle.AccWriter
import MagnumOpus.Candle.OrderBook

/-! # The consumer of a symbol

`consumer.go`: a consumer takes the entries of its symbol's stream one at a time and hands them to
the order book and to the accumulators; a bar-close signal finishes the 1s bar.  At shutdown the
running bars are written once more (`main.go`).

* **Calls.** Every event says how the calls to Redis and QuestDB that it makes end.  The best quote
  of a book is a parameter, as it depends on the order in which Go walks through a map.
* **Outputs.** A step shows the ticks that it applies and what its flushes have made.
* **Scope.** This is the active consumer; the shadow mode before a promotion is left out. -/

namespace MagnumOpus.Candle

open EventMachine

/-- An entry of the stream. -/
structure Message where
  id : String
  fields : List (String × String)

/-- How the calls end that are made for one event. -/
structure Calls where
  xack : Bool := true
  zscore : Bool := true
  zadd : Bool := true
  zremrangebyrank : Bool := true
  writeBar : Bool := true

structure Consumer where
  exchange : String
  symbol : String
  book : OrderBook
  aw : AccWriter
  /-- The entries seen since the last bar close. -/
  seenIDs : List String := []
  /-- The ticks applied since the last bar close or snapshot. -/
  tickCount : ℕ := 0
  hasNewTicks : Bool := false
  /-- The sorted set of gaps in Redis, by score. -/
  gapDedup : List (ℤ × String) := []
  /-- The loop has returned. -/
  exited : Bool := false
  /-- The service has been shut down. -/
  down : Bool := false

inductive Event where
  | message (m : Message) (calls : Calls) (nowMs : Int64)
  | barClose (calls : Calls) (nowMs : Int64)
  | partialPublish
  | shutdown (calls : Calls) (nowMs : Int64)

/-- What a step shows. -/
inductive Output where
  /-- A tick went to the accumulators. -/
  | applied (t : Tick)
  /-- A flush was accepted. -/
  | flushed (f : Flushed)
  /-- The last rows, of `snapshot_1s` when it was accepted, and of the parallel bars with trades. -/
  | final (row bar1m bar15m : Option Bar)

/-- The row of `snapshot_1s` that is written. -/
def Output.row : Output → Option Bar
  | .applied _ => none
  | .flushed f => some f.row
  | .final row _ _ => row

/-- The dedup member of a gap. -/
def gapDedupKey (g : GapMarker) : String :=
  Strconv.formatInt g.seqBefore ++ ":" ++ Strconv.formatInt g.seqAfter ++ ":" ++ g.gapCause

/-- The order of a sorted set: by score, and by member where scores are equal. -/
def ScoredBefore (a b : ℤ × String) : Prop := a.1 < b.1 ∨ a.1 = b.1 ∧ a.2 ≤ b.2

instance : DecidableRel ScoredBefore := fun a b =>
  inferInstanceAs (Decidable (a.1 < b.1 ∨ a.1 = b.1 ∧ a.2 ≤ b.2))

namespace Consumer

def new (exchange symbol : String) (coldBufSize : ℕ) : Consumer where
  exchange := exchange
  symbol := symbol
  book := .new exchange symbol coldBufSize
  aw := .new exchange symbol

def isGapDup (c : Consumer) (g : GapMarker) : Bool := c.gapDedup.any (·.2 = gapDedupKey g)

/-- Adds the gap to the sorted set, which is trimmed to the latest ten thousand. -/
def recordGapDedup (c : Consumer) (g : GapMarker) (nowMs : Int64) (trimmed : Bool) : Consumer :=
  let member := gapDedupKey g
  let others := c.gapDedup.filter (·.2 ≠ member)
  let added := others.orderedInsert ScoredBefore (nowMs.toInt, member)
  { c with gapDedup := if trimmed then added.drop (added.length - 10000) else added }

/-- Finishes the 1s bar, and forgets the entries seen in it. -/
def handleBarClose (c : Consumer) (calls : Calls) (nowMs : Int64) : Consumer × List Output :=
  let flushed := c.aw.flush false nowMs calls.writeBar
  ({ c with aw := flushed.1, tickCount := 0, seenIDs := [] },
    flushed.2.toList.map .flushed)

section Messages

variable (N : Numerics) (bestQuote : OrderBook → BestQuote)

def handleTick (c : Consumer) (t : Tick) : Consumer × List Output :=
  let book := (c.book.applyTick t).1
  ({ c with
     book
     aw := c.aw.apply N t.price t.size (t.level = 0) t.side t.tsMs (bestQuote c.book)
       (bestQuote book)
     tickCount := c.tickCount + 1
     hasNewTicks := true }, [.applied t])

def handleGap (c : Consumer) (g : GapMarker) (calls : Calls) (nowMs : Int64) :
    Consumer × List Output :=
  if calls.zscore = false then ({ c with exited := true }, [])
  else if c.isGapDup g then (c, [])
  else if calls.zadd = false then ({ c with exited := true }, [])
  else
    let recorded := c.recordGapDedup g nowMs calls.zremrangebyrank
    if calls.zremrangebyrank = false then ({ recorded with exited := true }, [])
    else ({ recorded with aw := c.aw.incrementGap, book := c.book.applyGap g }, [])

/-- A snapshot ends the bar early: what it has is flushed, and everything starts over. -/
def handleSnapshot (c : Consumer) (s : SnapshotEvent) (calls : Calls) (nowMs : Int64) :
    Consumer × List Output :=
  let flushed :=
    if 0 < c.tickCount then c.aw.flush true nowMs calls.writeBar else (c.aw, none)
  ({ c with tickCount := 0, aw := flushed.1.reset, book := (c.book.applySnapshot s).1 },
    flushed.2.toList.map .flushed)

def handleMessage (c : Consumer) (m : Message) (calls : Calls) (nowMs : Int64) :
    Consumer × List Output :=
  if m.id ∈ c.seenIDs then (c, [])
  else
    let seen := { c with seenIDs := m.id :: c.seenIDs }
    let parsed := parseMessage m.fields
    let isZeroVolume : Bool := match parsed with
      | .tick t => t.level = 0 ∧ t.size = "0"
      | _ => false
    if isZeroVolume then (seen, [])
    else if calls.xack = false then ({ c with exited := true }, [])
    else match parsed with
      | .tick t => seen.handleTick N bestQuote t
      | .gap g => seen.handleGap g calls nowMs
      | .snapshot s => seen.handleSnapshot s calls nowMs
      | .unknown => (seen, [])

/-- The running bars are written once more; the parallel ones only if they have trades. -/
def shutdown (c : Consumer) (calls : Calls) (nowMs : Int64) : Consumer × List Output :=
  let tsSecMs := truncateSecond nowMs
  let row := c.aw.acc.currentBar tsSecMs true
  let parallelRow (p : ParallelTF) : Option Bar :=
    let bar := (c.aw.parallel p).currentBar tsSecMs true
    let barOpenMs := Int64.ofInt (UtcTime.truncate p.tf.seconds (Cascade.unixSec tsSecMs) * 1000)
    if bar.openPrice = none then none else some { bar with tsSecMs := barOpenMs }
  ({ c with exited := true, down := true },
    [.final (if calls.writeBar then some row else none) (parallelRow .tf1m) (parallelRow .tf15m)])

def step : Step Consumer Event Output := fun c ev =>
  match ev with
  | .message m calls nowMs =>
      if c.exited then (c, []) else c.handleMessage N bestQuote m calls nowMs
  | .barClose calls nowMs => if c.exited then (c, []) else c.handleBarClose calls nowMs
  | .partialPublish => if c.exited then (c, []) else ({ c with hasNewTicks := false }, [])
  | .shutdown calls nowMs => if c.down then (c, []) else c.shutdown calls nowMs

/-! ### What a step does -/

/-- The event is a snapshot that the consumer takes. -/
def takesSnapshot (c : Consumer) : Event → Bool
  | .message m calls _ =>
      match parseMessage m.fields with
      | .snapshot _ => c.exited = false ∧ m.id ∉ c.seenIDs ∧ calls.xack = true
      | _ => false
  | _ => false

/-- The second of the row that an event's flush writes, when there is one and it is accepted. -/
def writesAt (c : Consumer) : Event → Option Int64
  | .message m calls nowMs =>
      if c.takesSnapshot (.message m calls nowMs) ∧ 0 < c.tickCount ∧ calls.writeBar then
        some (truncateSecond nowMs)
      else none
  | .barClose calls nowMs =>
      if c.exited = false ∧ calls.writeBar then some (truncateSecond nowMs) else none
  | .partialPublish => none
  | .shutdown calls nowMs =>
      if c.down = false ∧ calls.writeBar then some (truncateSecond nowMs) else none

/-- What a step can do, and when. -/
inductive Stepped (c : Consumer) (ev : Event) : Consumer → List Output → Prop
  | quiet {c' : Consumer} (hsnapshot : c.takesSnapshot ev = false) (hwrites : c.writesAt ev = none)
      (hdown : c'.down = c.down) (haw : AccWriter.SameTrades c.aw c'.aw) : Stepped c ev c' []
  | tick {c' : Consumer} (t : Tick) (prev curr : BestQuote)
      (hsnapshot : c.takesSnapshot ev = false) (hwrites : c.writesAt ev = none)
      (hdown : c'.down = c.down)
      (haw : c'.aw = c.aw.apply N t.price t.size (t.level = 0) t.side t.tsMs prev curr) :
      Stepped c ev c' [.applied t]
  | barClose {c' : Consumer} {f : Flushed} {calls : Calls} (nowMs : Int64)
      (hev : ev = .barClose calls nowMs) (hsnapshot : c.takesSnapshot ev = false)
      (hwrites : c.writesAt ev = some (truncateSecond nowMs)) (hdown : c'.down = c.down)
      (haw : c.aw.flush false nowMs true = (c'.aw, some f)) :
      Stepped c ev c' [.flushed f]
  | snapshot {c' : Consumer} {f : Flushed} (nowMs : Int64) (hsnapshot : c.takesSnapshot ev = true)
      (hwrites : c.writesAt ev = some (truncateSecond nowMs)) (hdown : c'.down = c.down)
      (hf : (c.aw.flush true nowMs true).2 = some f)
      (haw : c'.aw = (c.aw.flush true nowMs true).1.reset) : Stepped c ev c' [.flushed f]
  | snapshotOnly {c' : Consumer} {aw : AccWriter} (hsnapshot : c.takesSnapshot ev = true)
      (hwrites : c.writesAt ev = none) (hdown : c'.down = c.down)
      (hsame : AccWriter.SameTrades c.aw aw) (haw : c'.aw = aw.reset) : Stepped c ev c' []
  | shutdown {c' : Consumer} {row bar1m bar15m : Option Bar} {calls : Calls} (nowMs : Int64)
      (hev : ev = .shutdown calls nowMs) (hsnapshot : c.takesSnapshot ev = false)
      (hrow : row.isSome = (c.writesAt ev).isSome)
      (hwrites : ∀ sec ∈ c.writesAt ev, sec = truncateSecond nowMs)
      (hbar : ∀ b ∈ row, b = c.aw.acc.currentBar (truncateSecond nowMs) true)
      (hdown : c.down = false ∧ c'.down = true ∧ c'.exited = true) (haw : c'.aw = c.aw) :
      Stepped c ev c' [.final row bar1m bar15m]

variable {N bestQuote} {c : Consumer}

theorem stepped_barClose (calls : Calls) (nowMs : Int64) (hrun : c.exited = false) :
    Stepped N c (.barClose calls nowMs) (c.handleBarClose calls nowMs).1
      (c.handleBarClose calls nowMs).2 := by
  simp only [handleBarClose]
  cases hw : calls.writeBar with
  | true =>
      obtain ⟨f, hf⟩ := c.aw.flush_accepted false nowMs
      rw [hf]
      refine .barClose nowMs rfl rfl ?_ rfl (Prod.ext rfl hf)
      rw [writesAt, if_pos ⟨hrun, hw⟩]
  | false =>
      obtain ⟨hnone, hsame⟩ := c.aw.flush_rejected false nowMs
      rw [hnone]
      refine .quiet rfl ?_ rfl hsame
      rw [writesAt, if_neg]
      rw [hw]
      exact fun h => Bool.noConfusion h.2

theorem stepped_shutdown (calls : Calls) (nowMs : Int64) (hup : c.down = false) :
    Stepped N c (.shutdown calls nowMs) (c.shutdown calls nowMs).1 (c.shutdown calls nowMs).2 := by
  simp only [shutdown]
  refine .shutdown nowMs rfl rfl ?_ ?_ ?_ ⟨hup, rfl, rfl⟩ rfl
  all_goals cases hw : calls.writeBar <;> simp [writesAt, hup, hw]

theorem stepped_quiet_message {m : Message} {calls : Calls} {nowMs : Int64} {c' : Consumer}
    (hsnapshot : c.takesSnapshot (.message m calls nowMs) = false) (hdown : c'.down = c.down)
    (haw : AccWriter.SameTrades c.aw c'.aw) : Stepped N c (.message m calls nowMs) c' [] := by
  refine .quiet hsnapshot ?_ hdown haw
  rw [writesAt, hsnapshot, if_neg]
  exact fun h => Bool.noConfusion h.1

theorem stepped_gap {m : Message} {calls : Calls} {nowMs : Int64} {g : GapMarker} {seen : Consumer}
    (hsnapshot : c.takesSnapshot (.message m calls nowMs) = false) (haw : seen.aw = c.aw)
    (hdown : seen.down = c.down) :
    Stepped N c (.message m calls nowMs) (seen.handleGap g calls nowMs).1
      (seen.handleGap g calls nowMs).2 := by
  have hsame : AccWriter.SameTrades c.aw seen.aw := by
    rw [haw]
    exact .refl _
  unfold handleGap
  split
  · exact stepped_quiet_message hsnapshot hdown hsame
  · split
    · exact stepped_quiet_message hsnapshot hdown hsame
    · split
      · exact stepped_quiet_message hsnapshot hdown hsame
      · split
        · exact stepped_quiet_message hsnapshot hdown hsame
        · refine stepped_quiet_message hsnapshot hdown ?_
          show AccWriter.SameTrades c.aw seen.aw.incrementGap
          rw [haw]
          exact AccWriter.sameTrades_incrementGap _

theorem stepped_snapshot {m : Message} {calls : Calls} {nowMs : Int64} {s : SnapshotEvent}
    {seen : Consumer} (hsnapshot : c.takesSnapshot (.message m calls nowMs) = true)
    (haw : seen.aw = c.aw) (hdown : seen.down = c.down) (hcount : seen.tickCount = c.tickCount) :
    Stepped N c (.message m calls nowMs) (seen.handleSnapshot s calls nowMs).1
      (seen.handleSnapshot s calls nowMs).2 := by
  simp only [handleSnapshot]
  by_cases hflush : 0 < c.tickCount
  · rw [hcount, if_pos hflush, haw]
    cases hw : calls.writeBar with
    | true =>
        obtain ⟨f, hf⟩ := c.aw.flush_accepted true nowMs
        rw [hf]
        refine .snapshot nowMs hsnapshot ?_ hdown hf rfl
        rw [writesAt, hsnapshot, if_pos ⟨rfl, hflush, hw⟩]
    | false =>
        obtain ⟨hnone, hsame⟩ := c.aw.flush_rejected true nowMs
        rw [hnone]
        refine .snapshotOnly hsnapshot ?_ hdown hsame rfl
        rw [writesAt, hw, if_neg]
        exact fun h => Bool.noConfusion h.2.2
  · rw [hcount, if_neg hflush, haw]
    refine .snapshotOnly hsnapshot ?_ hdown (.refl _) rfl
    rw [writesAt, if_neg]
    exact fun h => hflush h.2.1

theorem stepped_message (m : Message) (calls : Calls) (nowMs : Int64) (hrun : c.exited = false) :
    Stepped N c (.message m calls nowMs) (c.handleMessage N bestQuote m calls nowMs).1
      (c.handleMessage N bestQuote m calls nowMs).2 := by
  unfold handleMessage
  by_cases hseen : m.id ∈ c.seenIDs
  · rw [if_pos hseen]
    refine stepped_quiet_message ?_ rfl (.refl _)
    rw [takesSnapshot]
    split <;> simp [hseen]
  rw [if_neg hseen]
  -- What the entry is parsed to decides which handler takes it.
  cases hparsed : parseMessage m.fields with
  | tick t =>
      have hsnapshot : c.takesSnapshot (.message m calls nowMs) = false := by
        rw [takesSnapshot, hparsed]
      simp only
      split
      · exact stepped_quiet_message hsnapshot rfl (.refl _)
      · split
        · exact stepped_quiet_message hsnapshot rfl (.refl _)
        · refine .tick t _ _ hsnapshot ?_ rfl rfl
          rw [writesAt, hsnapshot, if_neg]
          exact fun h => Bool.noConfusion h.1
  | gap g =>
      have hsnapshot : c.takesSnapshot (.message m calls nowMs) = false := by
        rw [takesSnapshot, hparsed]
      simp only [Bool.false_eq_true, if_false]
      split
      · exact stepped_quiet_message hsnapshot rfl (.refl _)
      · exact stepped_gap hsnapshot rfl rfl
  | snapshot s =>
      simp only [Bool.false_eq_true, if_false]
      split
      next hx =>
        refine stepped_quiet_message ?_ rfl (.refl _)
        rw [takesSnapshot, hparsed]
        simp [hx]
      next hx =>
        refine stepped_snapshot ?_ rfl rfl rfl
        rw [takesSnapshot, hparsed]
        simp [hrun, hseen, hx]
  | unknown =>
      have hsnapshot : c.takesSnapshot (.message m calls nowMs) = false := by
        rw [takesSnapshot, hparsed]
      simp only [Bool.false_eq_true, if_false]
      split <;> exact stepped_quiet_message hsnapshot rfl (.refl _)

/-- **A step does one of these things.** -/
theorem stepped_step (N : Numerics) (bestQuote : OrderBook → BestQuote) (c : Consumer)
    (ev : Event) :
    Stepped N c ev (step N bestQuote c ev).1 (step N bestQuote c ev).2 := by
  cases ev with
  | message m calls nowMs =>
      rw [step]
      split
      next hexited =>
        refine stepped_quiet_message ?_ rfl (.refl _)
        rw [takesSnapshot]
        split <;> simp [hexited]
      next hrun => exact stepped_message m calls nowMs (Bool.eq_false_iff.mpr hrun)
  | barClose calls nowMs =>
      rw [step]
      split
      next hexited =>
        refine .quiet rfl ?_ rfl (.refl _)
        rw [writesAt, hexited, if_neg]
        exact fun h => Bool.noConfusion h.1
      next hrun => exact stepped_barClose calls nowMs (Bool.eq_false_iff.mpr hrun)
  | partialPublish =>
      rw [step]
      split <;> exact .quiet rfl rfl rfl (.refl _)
  | shutdown calls nowMs =>
      rw [step]
      split
      next hdown =>
        refine .quiet rfl ?_ rfl (.refl _)
        rw [writesAt, hdown, if_neg]
        exact fun h => Bool.noConfusion h.1
      next hup => exact stepped_shutdown calls nowMs (Bool.eq_false_iff.mpr hup)

/-! ### Invariants -/

theorem step_of_down (N : Numerics) (bestQuote : OrderBook → BestQuote) (hexited : c.exited = true)
    (hdown : c.down = true) (ev : Event) :
    step N bestQuote c ev = (c, []) ∧ c.takesSnapshot ev = false ∧ c.writesAt ev = none := by
  cases ev with
  | message m calls nowMs =>
      have hsnapshot : c.takesSnapshot (.message m calls nowMs) = false := by
        rw [takesSnapshot]
        split <;> simp [hexited]
      refine ⟨if_pos hexited, hsnapshot, ?_⟩
      rw [writesAt, hsnapshot, if_neg]
      exact fun h => Bool.noConfusion h.1
  | barClose calls nowMs =>
      refine ⟨if_pos hexited, rfl, if_neg ?_⟩
      rw [hexited]
      exact fun h => Bool.noConfusion h.1
  | partialPublish => exact ⟨if_pos hexited, rfl, rfl⟩
  | shutdown calls nowMs =>
      refine ⟨if_pos hdown, rfl, if_neg ?_⟩
      rw [hdown]
      exact fun h => Bool.noConfusion h.1

theorem Stepped.started {ev : Event} {c' : Consumer} {outs : List Output} (h : c.aw.Started)
    (hstep : Stepped N c ev c' outs) : c'.aw.Started := by
  cases hstep with
  | quiet _ _ _ haw => exact h.of_sameTrades haw
  | tick t prev curr _ _ _ haw =>
      rw [haw]
      exact h.apply _ _ _ _ _ _ _
  | barClose nowMs _ _ _ _ haw =>
      rw [show c'.aw = (c.aw.flush false nowMs true).1 by rw [haw]]
      exact h.flush nowMs
  | snapshot _ _ _ _ _ haw =>
      rw [haw]
      exact AccWriter.started_reset _
  | snapshotOnly _ _ _ _ haw =>
      rw [haw]
      exact AccWriter.started_reset _
  | shutdown _ _ _ _ _ _ _ haw =>
      rw [haw]
      exact h

end Messages

end Consumer

end MagnumOpus.Candle
