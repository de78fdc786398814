import MagnumOpus.Lib.Balance
import MagnumOpus.Candle.WalVolume

/-! # The volume in `snapshot_1s`

The table keeps one row for every second of a symbol; a later row replaces an earlier one
(`DEDUP UPSERT KEYS(ts, exchange, symbol)`).

* **A consumer and its writer.** A turn of the consumer that ends a bar waits for `WriteBar`.  The
  row is written or, while the table is suspended, buffered; the probe goes on beside the turn.
* **The hope.** `stored` and `unflushed` volume together are the sizes of the trades that the
  consumer has applied.
* **When it holds.** Exactly when no step of the run loses volume, and the buffer has none at the
  end (`volume_conserved_iff`): no row that is written replaces one with volume, none with volume is
  dropped from the buffer or given up by a drain, and no snapshot starts over a bar with volume that
  it has not handed to the writer. -/

namespace MagnumOpus.Candle

open EventMachine KeyedSum

/-- An event whose call of `WriteBar` ends in this way. -/
def Event.answered (ok : Bool) : Event → Event
  | .message m calls nowMs => .message m { calls with writeBar := ok } nowMs
  | .barClose calls nowMs => .barClose { calls with writeBar := ok } nowMs
  | .partialPublish => .partialPublish
  | .shutdown calls nowMs => .shutdown { calls with writeBar := ok } nowMs

/-- The consumer, and the writer of its table. -/
structure Ledger where
  consumer : Consumer
  writer : WalWriter
  /-- The event whose turn waits for `WriteBar`. -/
  waiting : Option Event := none
  /-- The last row has been accepted at shutdown. -/
  settled : Bool := false

inductive LedgerEvent where
  /-- The consumer takes an event. -/
  | turn (ev : Event)
  | wal (e : WalEvent)

namespace Ledger

variable (N : Numerics) (bestQuote : OrderBook → BestQuote)

def new (exchange symbol : String) (coldBufSize : ℕ) (walBufferSize : ℤ) : Ledger where
  consumer := .new exchange symbol coldBufSize
  writer := .new walBufferSize

/-- The last row of a shutdown. -/
def isLastRow : Output → Bool
  | .final (some _) _ _ => true
  | _ => false

/-- The row that the turn of an event hands to `WriteBar`. -/
def handed (c : Consumer) (ev : Event) : Option Bar :=
  ((Consumer.step N bestQuote c (ev.answered true)).2.filterMap Output.row).head?

/-- The end of a turn. -/
def finish (s : Ledger) (writer : WalWriter) (ev : Event) : Ledger × List Output :=
  let out := Consumer.step N bestQuote s.consumer ev
  ({ consumer := out.1
     writer := writer
     waiting := none
     settled := s.settled || out.2.any isLastRow }, out.2)

def step : Step Ledger LedgerEvent Output := fun s e =>
  if s.writer.crashed then (s, []) else
  match e with
  | .turn ev =>
      if s.waiting.isSome then (s, []) else
      match handed N bestQuote s.consumer ev with
      | some row =>
          ({ s with writer := (s.writer.step (.call row)).1, waiting := some ev }, [])
      | none => s.finish N bestQuote s.writer ev
  -- Only the consumer calls.
  | .wal (.call _) => (s, [])
  | .wal e =>
      match s.waiting, (s.writer.step e).2 with
      | some ev, [ok] => s.finish N bestQuote (s.writer.step e).1 (ev.answered ok)
      | _, _ => ({ s with writer := (s.writer.step e).1 }, [])

/-- The volume in the table. -/
def stored (s : Ledger) : ℚ := total Bar.volumeOrZero s.writer.table

/-- The volume of the running bar. -/
def unflushed (s : Ledger) : ℚ := if s.settled then 0 else s.consumer.aw.acc.trades.volumeSum

/-- The size of a trade that is applied; other ticks, and trades that do not count, have none. -/
def tradeSize : Output → ℚ
  | .applied t =>
      match if t.level = 0 then Accumulator.parseTrade N t.price t.size else none with
      | some (_, size) => size
      | none => 0
  | _ => 0

/-- The event whose turn a step ends, with the answer of `WriteBar`. -/
def ends (s : Ledger) (e : LedgerEvent) : Option Event :=
  if s.writer.crashed then none else
  match e with
  | .turn ev =>
      if s.waiting.isSome ∨ (handed N bestQuote s.consumer ev).isSome then none else some ev
  | .wal (.call _) => none
  | .wal e =>
      match s.waiting, (s.writer.step e).2 with
      | some ev, [ok] => some (ev.answered ok)
      | _, _ => none

/-- The rows that a step takes away. -/
def takesAway (s : Ledger) : LedgerEvent → List Bar
  | .turn _ => []
  | .wal e => s.writer.takesAway e

/-- The step loses no volume: it takes away no row with volume, and a snapshot whose turn ends
without a row that was accepted finds no volume in the running bar. -/
def Lossless (s : Ledger) (e : LedgerEvent) : Prop :=
  (∀ b ∈ s.takesAway e, b.volumeOrZero = 0) ∧
    ∀ ev ∈ s.ends N bestQuote e, s.consumer.takesSnapshot ev = true →
      s.consumer.writesAt ev = none → s.consumer.aw.acc.trades.volumeSum = 0

/-- The volume that a snapshot starts over. -/
def startedOver (c : Consumer) (ev : Event) : ℚ :=
  if c.takesSnapshot ev = true ∧ c.writesAt ev = none then c.aw.acc.trades.volumeSum else 0

/-- The volume that a step loses. -/
def loss (s : Ledger) (e : LedgerEvent) : ℚ :=
  WalWriter.volume (s.takesAway e) + (s.ends N bestQuote e).elim 0 (startedOver s.consumer)

/-- The volume that is in the table, in the buffer or in the running bar. -/
def value (s : Ledger) : ℚ := s.writer.kept + s.unflushed

/-! ### The rows of a turn -/

variable {N bestQuote} {c c' : Consumer} {ev : Event} {outs : List Output}

theorem volumeOrZero_isRow {aw : AccWriter} {nowMs : Int64} {row : Bar}
    (h : AccWriter.IsRow aw nowMs row) : row.volumeOrZero = aw.acc.trades.volumeSum :=
  congrArg Ohlcv.volume h.ohlcv

theorem volumeSum_apply {aw : AccWriter} (h : aw.Started) (t : Tick) (prev curr : BestQuote) :
    (aw.apply N t.price t.size (t.level = 0) t.side t.tsMs prev curr).acc.trades.volumeSum =
      aw.acc.trades.volumeSum + tradeSize N (.applied t) := by
  have hohlcv := (apply_trades (N := N) aw.acc t.price t.size (t.level = 0) t.side t.tsMs prev curr
    h.acc).2
  have hvolume := congrArg Ohlcv.volume hohlcv
  rw [Ohlcv.add_volume] at hvolume
  refine hvolume.trans ?_
  unfold tradeSize
  simp only [decide_eq_true_eq]
  congr 1
  generalize (if t.level = 0 then Accumulator.parseTrade N t.price t.size else none) = counted
  cases counted <;> rfl

theorem tradeSize_nonneg (o : Output) : 0 ≤ tradeSize N o := by
  unfold tradeSize
  split
  · split
    next hsome =>
      split at hsome
      · exact (Accumulator.parseTrade_eq_some.mp hsome).2.2.le
      · cases hsome
    · exact le_refl _
  · exact le_refl _

theorem startedOver_of_not {c : Consumer} {ev : Event} (h : c.takesSnapshot ev = false) :
    startedOver c ev = 0 := by
  rw [startedOver, h, if_neg fun h => Bool.noConfusion h.1]

theorem startedOver_of_writes {c : Consumer} {ev : Event} {sec : Int64}
    (h : c.writesAt ev = some sec) : startedOver c ev = 0 := by
  rw [startedOver, h, if_neg fun h => Option.some_ne_none _ h.2]

/-- The volume of the running bar that a turn leaves: what it had, the trades applied, less the row
that was accepted and what a snapshot has started over. -/
theorem running_stepped (h : c.aw.Started) (hstep : Consumer.Stepped N c ev c' outs) :
    (if outs.any isLastRow then 0 else c'.aw.acc.trades.volumeSum) +
        WalWriter.volume (outs.filterMap Output.row) + startedOver c ev =
      c.aw.acc.trades.volumeSum + (outs.map (tradeSize N)).sum := by
  cases hstep with
  | quiet hsnapshot _ _ haw =>
      rw [startedOver_of_not hsnapshot, haw.acc]
      simp
  | tick t prev curr hsnapshot _ _ haw =>
      rw [startedOver_of_not hsnapshot, haw, volumeSum_apply h t prev curr, List.map_singleton,
        List.sum_singleton, add_zero]
      exact add_zero _
  | @barClose f _ nowMs _ hsnapshot _ _ haw =>
      obtain ⟨f', hf, hcleared, -⟩ := AccWriter.flush_full h.acc nowMs
      rw [haw] at hf hcleared
      obtain rfl := Option.some.inj hf
      rw [startedOver_of_not hsnapshot, hcleared.acc]
      simp [isLastRow, Output.row, tradeSize, volumeOrZero_isRow hcleared.row]
  | @snapshot f nowMs _ hwrites _ hf haw =>
      obtain ⟨f', hf', hcleared, -⟩ := AccWriter.flush_partial h.acc nowMs
      obtain rfl := Option.some.inj (hf.symm.trans hf')
      have hreset : c'.aw.acc.trades.volumeSum = 0 := by rw [haw]; rfl
      rw [startedOver_of_writes hwrites, hreset]
      simp [isLastRow, Output.row, tradeSize, volumeOrZero_isRow hcleared.row]
  | snapshotOnly hsnapshot hwrites _ _ haw =>
      have hreset : c'.aw.acc.trades.volumeSum = 0 := by rw [haw]; rfl
      simp [startedOver, hsnapshot, hwrites, hreset]
  | @shutdown row bar1m bar15m _ nowMs _ hsnapshot _ _ hbar _ haw =>
      rw [startedOver_of_not hsnapshot, haw]
      cases row with
      | none =>
          rw [List.map_singleton, List.sum_singleton, add_zero]
          rfl
      | some row =>
          have hrow := AccWriter.isRow_currentBar h.acc nowMs true
          rw [← hbar row rfl] at hrow
          simp [isLastRow, Output.row, tradeSize, volumeOrZero_isRow hrow]

theorem running_nonneg (h : c.aw.Started) (hrunning : 0 ≤ c.aw.acc.trades.volumeSum)
    (hstep : Consumer.Stepped N c ev c' outs) : 0 ≤ c'.aw.acc.trades.volumeSum := by
  cases hstep with
  | quiet _ _ _ haw => rwa [haw.acc]
  | tick t prev curr _ _ _ haw =>
      rw [haw, volumeSum_apply h]
      exact add_nonneg hrunning (tradeSize_nonneg _)
  | @barClose f _ nowMs _ _ _ _ haw =>
      obtain ⟨f', hf, hcleared, -⟩ := AccWriter.flush_full h.acc nowMs
      rw [haw] at hcleared
      rw [hcleared.acc]
  | snapshot _ _ _ _ _ haw =>
      rw [haw]
      exact le_refl _
  | snapshotOnly _ _ _ _ haw =>
      rw [haw]
      exact le_refl _
  | shutdown _ _ _ _ _ _ _ haw => rwa [haw]

/-- A turn writes one row or none, and none with a volume of its own. -/
theorem rows_stepped (h : c.aw.Started) (hstep : Consumer.Stepped N c ev c' outs) :
    (c.writesAt ev = none ∧ outs.filterMap Output.row = []) ∨
      ∃ row, (c.writesAt ev).isSome ∧ outs.filterMap Output.row = [row] ∧
        row.volumeOrZero = c.aw.acc.trades.volumeSum := by
  cases hstep with
  | quiet _ hwrites _ _ => exact .inl ⟨hwrites, rfl⟩
  | tick t prev curr _ hwrites _ _ => exact .inl ⟨hwrites, rfl⟩
  | @barClose f _ nowMs _ _ hwrites _ haw =>
      obtain ⟨f', hf, hcleared, -⟩ := AccWriter.flush_full h.acc nowMs
      rw [haw] at hf hcleared
      obtain rfl := Option.some.inj hf
      exact .inr ⟨f.row, by rw [hwrites]; rfl, rfl, volumeOrZero_isRow hcleared.row⟩
  | @snapshot f nowMs _ hwrites _ hf _ =>
      obtain ⟨f', hf', hcleared, -⟩ := AccWriter.flush_partial h.acc nowMs
      obtain rfl := Option.some.inj (hf.symm.trans hf')
      exact .inr ⟨f.row, by rw [hwrites]; rfl, rfl, volumeOrZero_isRow hcleared.row⟩
  | snapshotOnly _ hwrites _ _ _ => exact .inl ⟨hwrites, rfl⟩
  | @shutdown row bar1m bar15m _ nowMs _ _ hrow _ hbar _ _ =>
      cases row with
      | none =>
          have hnone := Option.isSome_eq_false_iff.mp hrow.symm
          exact .inl ⟨Option.isNone_iff_eq_none.mp hnone, rfl⟩
      | some row =>
          have hisRow := AccWriter.isRow_currentBar h.acc nowMs true
          rw [← hbar row rfl] at hisRow
          exact .inr ⟨row, hrow.symm, rfl, volumeOrZero_isRow hisRow⟩

theorem writesAt_answered {sec : Int64} (h : c.writesAt ev = some sec) :
    c.writesAt (ev.answered true) = some sec := by
  cases ev with
  | message m calls nowMs =>
      simp only [Consumer.writesAt, Event.answered, Consumer.takesSnapshot] at h ⊢
      grind
  | barClose calls nowMs =>
      simp only [Consumer.writesAt, Event.answered] at h ⊢
      grind
  | partialPublish => exact h
  | shutdown calls nowMs =>
      simp only [Consumer.writesAt, Event.answered] at h ⊢
      grind

theorem writesAt_refused : c.writesAt (ev.answered false) = none := by
  cases ev <;> simp [Consumer.writesAt, Event.answered]

theorem handed_eq_some (h : c.aw.Started) {row : Bar} (hrow : handed N bestQuote c ev = some row) :
    (Consumer.step N bestQuote c (ev.answered true)).2.filterMap Output.row = [row] ∧
      row.volumeOrZero = c.aw.acc.trades.volumeSum := by
  have hstep := Consumer.stepped_step N bestQuote c (ev.answered true)
  unfold handed at hrow
  rcases rows_stepped h hstep with ⟨-, hnone⟩ | ⟨row', -, hsome, hvolume⟩
  · rw [hnone] at hrow
    cases hrow
  · rw [hsome] at hrow
    obtain rfl := Option.some.inj hrow
    exact ⟨hsome, hvolume⟩

theorem rows_of_handed_eq_none (h : c.aw.Started) (hnone : handed N bestQuote c ev = none) :
    (Consumer.step N bestQuote c ev).2.filterMap Output.row = [] := by
  rcases rows_stepped h (Consumer.stepped_step N bestQuote c ev) with ⟨-, hrows⟩ | ⟨row, hsome, -⟩
  · exact hrows
  · obtain ⟨sec, hsec⟩ := Option.isSome_iff_exists.mp hsome
    rcases rows_stepped h (Consumer.stepped_step N bestQuote c (ev.answered true)) with
      ⟨hwrites, -⟩ | ⟨row', -, hrows, -⟩
    · rw [writesAt_answered hsec] at hwrites
      cases hwrites
    · rw [handed, hrows] at hnone
      cases hnone

/-! ### The invariant -/

variable (N bestQuote) in
structure Inv (s : Ledger) : Prop where
  started : s.consumer.aw.Started
  running : 0 ≤ s.consumer.aw.acc.trades.volumeSum
  kept : ∀ x ∈ s.writer.rows ++ s.writer.pending, 0 ≤ x.bar.volumeOrZero
  settled : s.settled = true → s.consumer.down = true
  down : s.consumer.down = true → s.consumer.exited = true
  idle : s.waiting = none → s.writer.call = none
  calling : ∀ ev, s.waiting = some ev →
    ∃ row, handed N bestQuote s.consumer ev = some row ∧ s.writer.offered = some row

variable {s : Ledger} {e : LedgerEvent}

theorem inv_new (exchange symbol : String) (coldBufSize : ℕ) (walBufferSize : ℤ) :
    Inv N bestQuote (new exchange symbol coldBufSize walBufferSize) where
  started := AccWriter.started_new exchange symbol
  running := le_refl _
  kept := fun _ h => absurd h List.not_mem_nil
  settled := fun h => Bool.noConfusion h
  down := fun h => Bool.noConfusion h
  idle := fun _ => rfl
  calling := fun _ h => absurd h (Option.some_ne_none _).symm

theorem Inv.takesAway_nonneg (h : Inv N bestQuote s) (e : LedgerEvent) :
    ∀ b ∈ s.takesAway e, 0 ≤ b.volumeOrZero := by
  cases e with
  | turn ev => exact fun _ hb => absurd hb List.not_mem_nil
  | wal e =>
      intro b hb
      obtain ⟨x, hx, rfl⟩ := WalWriter.mem_of_takesAway hb
      exact h.kept x hx

theorem startedOver_nonneg (h : 0 ≤ c.aw.acc.trades.volumeSum) (ev : Event) :
    0 ≤ startedOver c ev := by
  unfold startedOver
  split
  · exact h
  · exact le_refl _

theorem Inv.loss_nonneg (h : Inv N bestQuote s) (e : LedgerEvent) :
    0 ≤ s.loss N bestQuote e := by
  refine add_nonneg (WalWriter.volume_nonneg (h.takesAway_nonneg e)) ?_
  cases s.ends N bestQuote e with
  | none => exact le_refl _
  | some ev => exact startedOver_nonneg h.running ev

theorem Inv.loss_eq_zero_iff (h : Inv N bestQuote s) (e : LedgerEvent) :
    s.loss N bestQuote e = 0 ↔ s.Lossless N bestQuote e := by
  have hover : 0 ≤ (s.ends N bestQuote e).elim 0 (startedOver s.consumer) := by
    cases s.ends N bestQuote e with
    | none => exact le_refl _
    | some ev => exact startedOver_nonneg h.running ev
  rw [loss, add_eq_zero_iff_of_nonneg (WalWriter.volume_nonneg (h.takesAway_nonneg e)) hover,
    WalWriter.volume_eq_zero_iff (h.takesAway_nonneg e), Lossless]
  cases s.ends N bestQuote e with
  | none => simp
  | some ev => simp [startedOver]

theorem Inv.unsettled (h : Inv N bestQuote s) (hup : s.consumer.down = false) :
    s.settled = false := by
  by_contra hset
  rw [h.settled (Bool.eq_true_of_not_eq_false hset)] at hup
  exact Bool.noConfusion hup

/-! ### One step -/

/-- What the end of a turn does to the volume of the running bar. -/
theorem Inv.unflushed_finish (h : Inv N bestQuote s) (writer : WalWriter) (ev : Event) :
    (s.finish N bestQuote writer ev).1.unflushed +
        WalWriter.volume ((Consumer.step N bestQuote s.consumer ev).2.filterMap Output.row) +
        startedOver s.consumer ev =
      s.unflushed + ((Consumer.step N bestQuote s.consumer ev).2.map (tradeSize N)).sum := by
  cases hdown : s.consumer.down with
  | true =>
      obtain ⟨hstep, hsnapshot, -⟩ := Consumer.step_of_down N bestQuote (h.down hdown) hdown ev
      rw [startedOver_of_not hsnapshot]
      simp [finish, unflushed, hstep]
  | false =>
      have hrunning := running_stepped h.started (Consumer.stepped_step N bestQuote s.consumer ev)
      simpa [finish, unflushed, h.unsettled hdown] using hrunning

/-- After a turn in which the last row was written, or after an earlier one, the consumer is
down. -/
theorem Inv.down_finish (h : Inv N bestQuote s) (writer : WalWriter) (ev : Event) :
    let s' := (s.finish N bestQuote writer ev).1
    (s'.settled = true → s'.consumer.down = true) ∧
      (s'.consumer.down = true → s'.consumer.exited = true) := by
  simp only [finish]
  cases hdown : s.consumer.down with
  | true =>
      rw [(Consumer.step_of_down N bestQuote (h.down hdown) hdown ev).1]
      exact ⟨fun _ => hdown, h.down⟩
  | false =>
      have hset := h.unsettled hdown
      have hup : ∀ {down : Bool}, down = s.consumer.down → ¬ down = true := by
        rintro _ rfl hd
        rw [hdown] at hd
        cases hd
      generalize hout : Consumer.step N bestQuote s.consumer ev = out
      obtain ⟨c', outs⟩ := out
      have hstep := Consumer.stepped_step N bestQuote s.consumer ev
      rw [hout] at hstep
      rw [hset, Bool.false_or]
      cases hstep with
      | quiet _ _ hsame _ => exact ⟨fun h => Bool.noConfusion h, fun h => absurd h (hup hsame)⟩
      | tick t prev curr _ _ hsame _ =>
          exact ⟨fun h => Bool.noConfusion h, fun h => absurd h (hup hsame)⟩
      | barClose _ _ _ _ hsame _ =>
          exact ⟨fun h => Bool.noConfusion h, fun h => absurd h (hup hsame)⟩
      | snapshot _ _ _ hsame _ _ =>
          exact ⟨fun h => Bool.noConfusion h, fun h => absurd h (hup hsame)⟩
      | snapshotOnly _ _ hsame _ _ =>
          exact ⟨fun h => Bool.noConfusion h, fun h => absurd h (hup hsame)⟩
      | shutdown _ _ _ _ _ _ hdone _ => exact ⟨fun _ => hdone.2.1, fun _ => hdone.2.2⟩

theorem Inv.finish (h : Inv N bestQuote s) {writer : WalWriter} (hcall : writer.call = none)
    (hkept : ∀ x ∈ writer.rows ++ writer.pending, 0 ≤ x.bar.volumeOrZero) (ev : Event) :
    Inv N bestQuote (s.finish N bestQuote writer ev).1 where
  started := (Consumer.stepped_step N bestQuote s.consumer ev).started h.started
  running := running_nonneg h.started h.running (Consumer.stepped_step N bestQuote s.consumer ev)
  kept := hkept
  settled := (h.down_finish writer ev).1
  down := (h.down_finish writer ev).2
  idle := fun _ => hcall
  calling := fun _ hnone => absurd hnone (Option.some_ne_none _).symm

theorem step_wal (hrun : s.writer.crashed = false) {e : WalEvent} (hcall : ∀ b, e ≠ .call b) :
    step N bestQuote s (.wal e) =
      match s.waiting, (s.writer.step e).2 with
      | some ev, [ok] => s.finish N bestQuote (s.writer.step e).1 (ev.answered ok)
      | _, _ => ({ s with writer := (s.writer.step e).1 }, []) := by
  cases e with
  | call b => exact absurd rfl (hcall b)
  | _ => simp only [step, hrun, Bool.false_eq_true, if_false]

theorem ends_wal (hrun : s.writer.crashed = false) {e : WalEvent} (hcall : ∀ b, e ≠ .call b) :
    s.ends N bestQuote (.wal e) =
      match s.waiting, (s.writer.step e).2 with
      | some ev, [ok] => some (ev.answered ok)
      | _, _ => none := by
  cases e with
  | call b => exact absurd rfl (hcall b)
  | _ => simp only [ends, hrun, Bool.false_eq_true, if_false]

theorem Inv.exists_waiting (h : Inv N bestQuote s) {b : Bar}
    (hoffered : s.writer.offered = some b) :
    ∃ ev, s.waiting = some ev ∧ handed N bestQuote s.consumer ev = some b := by
  cases hw : s.waiting with
  | none =>
      rw [WalWriter.offered, h.idle hw] at hoffered
      cases hoffered
  | some ev =>
      obtain ⟨row, hrow, hoffered'⟩ := h.calling ev hw
      rw [hoffered] at hoffered'
      obtain rfl := Option.some.inj hoffered'
      exact ⟨ev, rfl, hrow⟩

theorem Inv.kept_of_inherits (h : Inv N bestQuote s) {writer : WalWriter}
    (hinherits : s.writer.Inherits writer) :
    ∀ x ∈ writer.rows ++ writer.pending, 0 ≤ x.bar.volumeOrZero := by
  intro x hx
  rcases hinherits x hx with hold | hoffered
  · exact h.kept x hold
  · obtain ⟨ev, -, hrow⟩ := h.exists_waiting hoffered
    rw [(handed_eq_some h.started hrow).2]
    exact h.running

/-- The step of the probe or of a call. -/
theorem value_wal (h : Inv N bestQuote s) (hrun : s.writer.crashed = false) {e : WalEvent}
    (hcall : ∀ b, e ≠ .call b) :
    Inv N bestQuote (step N bestQuote s (.wal e)).1 ∧
      (step N bestQuote s (.wal e)).1.value + s.loss N bestQuote (.wal e) =
        s.value + ((step N bestQuote s (.wal e)).2.map (tradeSize N)).sum := by
  have hworked := WalWriter.worked_step hrun hcall
  rw [step_wal hrun hcall, loss, ends_wal hrun hcall, takesAway]
  generalize s.writer.step e = out at hworked ⊢
  obtain ⟨writer, answers⟩ := out
  cases hworked with
  | quiet hsame hinherits hkept =>
      have hnone : (match s.waiting, ([] : List Bool) with
          | some ev, [ok] => some (ev.answered ok)
          | _, _ => none) = none := by
        cases s.waiting <;> rfl
      have hquiet : (match s.waiting, ([] : List Bool) with
          | some ev, [ok] => s.finish N bestQuote writer (ev.answered ok)
          | _, _ => ({ s with writer := writer }, [])) = ({ s with writer := writer }, []) := by
        cases s.waiting <;> rfl
      simp only [hnone, hquiet]
      refine ⟨{ h with kept := h.kept_of_inherits hinherits, idle := ?_, calling := ?_ }, ?_⟩
      · intro hw
        rw [hsame]
        exact h.idle hw
      · intro ev hw
        obtain ⟨row, hrow, hoffered⟩ := h.calling ev hw
        refine ⟨row, hrow, ?_⟩
        rw [WalWriter.offered, hsame]
        exact hoffered
      · simp only [value, unflushed, Option.elim_none, List.map_nil, List.sum_nil]
        linarith
  | @refused b hoffered hidle hinherits hkept =>
      obtain ⟨ev, hw, hrow⟩ := h.exists_waiting hoffered
      have hrows : (Consumer.step N bestQuote s.consumer (ev.answered false)).2.filterMap
          Output.row = [] := by
        rcases rows_stepped h.started
          (Consumer.stepped_step N bestQuote s.consumer (ev.answered false)) with
          ⟨-, hnil⟩ | ⟨row, hsome, -⟩
        · exact hnil
        · rw [writesAt_refused] at hsome
          cases hsome
      have hunflushed := h.unflushed_finish writer (ev.answered false)
      rw [hrows] at hunflushed
      simp only [hw]
      refine ⟨h.finish hidle (h.kept_of_inherits hinherits) _, ?_⟩
      simp only [value, Option.elim_some, WalWriter.volume_nil] at hunflushed ⊢
      simp only [finish] at hunflushed ⊢
      linarith
  | @accepted b hoffered hidle hinherits hkept =>
      obtain ⟨ev, hw, hrow⟩ := h.exists_waiting hoffered
      have hunflushed := h.unflushed_finish writer (ev.answered true)
      rw [(handed_eq_some h.started hrow).1] at hunflushed
      simp only [hw]
      refine ⟨h.finish hidle (h.kept_of_inherits hinherits) _, ?_⟩
      simp only [value, Option.elim_some, WalWriter.volume_cons,
        WalWriter.volume_nil] at hunflushed ⊢
      simp only [finish] at hunflushed ⊢
      linarith

/-- The consumer takes an event: its turn ends at once, or waits for `WriteBar`. -/
theorem value_turn (h : Inv N bestQuote s) (hrun : s.writer.crashed = false) (ev : Event) :
    Inv N bestQuote (step N bestQuote s (.turn ev)).1 ∧
      (step N bestQuote s (.turn ev)).1.value + s.loss N bestQuote (.turn ev) =
        s.value + ((step N bestQuote s (.turn ev)).2.map (tradeSize N)).sum := by
  simp only [step, loss, ends, takesAway, hrun, Bool.false_eq_true, if_false,
    WalWriter.volume_nil]
  by_cases hbusy : s.waiting.isSome = true
  · simp only [hbusy, if_true, true_or, Option.elim_none]
    exact ⟨h, by simp⟩
  · have hnone : s.waiting = none := by simpa using hbusy
    have hidle := h.idle hnone
    cases hhanded : handed N bestQuote s.consumer ev with
    | some row =>
        have hwriter : ∃ call, call.bar = row ∧
            (s.writer.step (.call row)).1 = { s.writer with call := some call } := by
          refine ⟨if s.writer.walSuspended then .enqueuing row else .writing row, ?_, ?_⟩
          · split <;> rfl
          · simp [WalWriter.step, hrun, hidle]
        obtain ⟨call, rfl, hwriter⟩ := hwriter
        simp only [hnone, hwriter, Option.isSome_none, Bool.false_eq_true, if_false,
          Option.isSome_some, or_true, if_true, Option.elim_none]
        refine ⟨{ h with idle := ?_, calling := ?_ }, ?_⟩
        · intro hw
          cases hw
        · intro ev' hw
          obtain rfl := Option.some.inj hw
          exact ⟨_, hhanded, rfl⟩
        · rw [add_zero, add_zero]
          exact (add_zero s.value).symm
    | none =>
        have hunflushed := h.unflushed_finish s.writer ev
        rw [rows_of_handed_eq_none h.started hhanded] at hunflushed
        simp only [hnone, Option.isSome_none, Bool.false_eq_true, if_false, or_self,
          Option.elim_some]
        refine ⟨h.finish hidle h.kept ev, ?_⟩
        simp only [value, WalWriter.volume_nil] at hunflushed ⊢
        simp only [finish] at hunflushed ⊢
        linarith

/-- **One step.** It raises the value by the sizes of the trades applied, less what it loses. -/
theorem value_step (h : Inv N bestQuote s) (e : LedgerEvent) :
    Inv N bestQuote (step N bestQuote s e).1 ∧
      (step N bestQuote s e).1.value + s.loss N bestQuote e =
        s.value + ((step N bestQuote s e).2.map (tradeSize N)).sum := by
  cases hrun : s.writer.crashed with
  | true =>
      have hsame : step N bestQuote s e = (s, []) := by
        unfold step
        rw [if_pos hrun]
      have hloss : s.loss N bestQuote e = 0 := by
        cases e <;> simp [loss, ends, takesAway, WalWriter.takesAway, hrun]
      rw [hsame, hloss]
      exact ⟨h, rfl⟩
  | false =>
      cases e with
      | turn ev => exact value_turn h hrun ev
      | wal e =>
          by_cases hcall : ∃ b, e = .call b
          · obtain ⟨b, rfl⟩ := hcall
            have hsame : step N bestQuote s (.wal (.call b)) = (s, []) := by
              simp only [step, hrun, Bool.false_eq_true, if_false]
            have hloss : s.loss N bestQuote (.wal (.call b)) = 0 := by
              simp [loss, ends, takesAway, WalWriter.takesAway, hrun]
            rw [hsame, hloss]
            exact ⟨h, rfl⟩
          · exact value_wal h hrun fun b hb => hcall ⟨b, hb⟩

/-! ### Runs -/

/-- Whole numbers and fractions as texts; no logarithm is taken without a quote. -/
def fractions : Numerics where
  parseFloat := FloatText.fraction.parse
  exp _ := 1
  log _ := 0

def trade (id size : String) : LedgerEvent :=
  .turn (.message ⟨id, [("type", "tick"), ("event_type", "trade"), ("price", "7"), ("size", size)]⟩
    {} 60100)

/-- A trade, a snapshot, another trade and the bar close within one second; the table takes every
row. -/
def twoFlushes : List LedgerEvent :=
  [trade "1" "3", .turn (.message ⟨"2", [("type", "snapshot")]⟩ {} 60200), .wal (.attempt .written),
    trade "3" "5", .turn (.barClose {} 60900), .wal (.attempt .written)]

/-- The last row is accepted while the table is suspended, and no probe comes any more. -/
example :
    let s := new "bybit" "BTC-USDT" 10 10000
    let step := step fractions fun _ => ⟨"", "", "", ""⟩
    let s' := final step s [.wal (.probe (some true)), .wal (.resume false), trade "1" "3",
      .turn (.shutdown {} 60900), .wal .enqueue]
    s'.stored + s'.unflushed = 0 ∧ s'.writer.waitingVolume = 3 := by
  decide +kernel

end Ledger

end MagnumOpus.Candle
