import MagnumOpus.Candle.StoredVolume

/-! # The running volume delta

The bars of a symbol carry a running sum of buy minus sell volume (`cumDelta` in `main.go`), which
starts over at every gap and at every snapshot.  A full flush with trades and a snapshot write the
sum to Redis, and a process that starts reads it there; a gap does not write it.

* **The hope.** A restart goes on with the sum that the process had when it stopped, and what a bar
  says is the sum over the full bars since the last gap or snapshot (`Output.Right`).
* **Full bars.** A full bar is one whose row has been accepted.  A flush counts its delta before it
  writes the row, so that the delta of a bar which is refused stays in the sum (`refused`).
* **Stops.** A process may stop between two calls, and within a flush or a snapshot, when the sum
  has been changed and not been written (`Stop`).

The hope holds exactly along the runs whose steps are `Safe` (`right_iff_safe`). -/

namespace MagnumOpus.Candle

open EventMachine

/-- The writer of a symbol, the sum in Redis, and what they have seen. -/
structure RunningCvd where
  aw : AccWriter
  /-- The text under the key `cum_delta`. -/
  stored : Option String := none
  /-- The full bars since the last gap or snapshot. -/
  bars : List Bar := []
  /-- What has been counted since then without a row. -/
  refused : ℚ := 0
  /-- A gap has come since the text was written or read. -/
  gapUnsaved : Bool := false

/-- Buy minus sell volume. -/
def Bar.delta (b : Bar) : ℚ := b.buyVolume.getD 0 - b.sellVolume.getD 0

namespace RunningCvd

/-- Where a process stops. -/
inductive Stop where
  /-- Between two calls; a stop after the sum has been written and before the row is one after a
  flush that is refused. -/
  | between
  /-- In a full flush, when the delta has been counted and the sum is not yet written. -/
  | counted (nowMs : Int64)
  /-- In a snapshot, when the sum has been cleared and is not yet written. -/
  | cleared

inductive Event where
  | apply (price size : String) (isTrade : Bool) (side : String) (tsMs : Int64)
      (prev curr : BestQuote)
  | flush (isPartial : Bool) (nowMs : Int64) (accepted : Bool)
  | incrementGap
  | reset
  /-- The process stops, and another one starts, with a cascade of its own. -/
  | restart (stop : Stop) (engine : Cascade.Engine)

inductive Output where
  /-- A row, with the full bars since the last gap or snapshot. -/
  | row (b : Bar) (bars : List Bar)
  /-- The sum before and after a restart. -/
  | restored (before after : ℚ)
deriving DecidableEq

/-- A row says the sum over the full bars, and a restart changes nothing. -/
def Output.Right : Output → Prop
  | .row b bars => ∀ x ∈ b.cumDelta, x = (bars.map Bar.delta).sum
  | .restored before after => after = before

instance : (o : Output) → Decidable o.Right
  | .row b bars => inferInstanceAs (Decidable (∀ x ∈ b.cumDelta, x = (bars.map Bar.delta).sum))
  | .restored before after => inferInstanceAs (Decidable (after = before))

variable (C : FloatText) (N : Numerics)

def new (exchange symbol : String) : RunningCvd where
  aw := .new exchange symbol

def persistCumDelta (s : RunningCvd) : RunningCvd :=
  { s with stored := some (C.format s.aw.cumDelta), gapUnsaved := false }

/-- What a start reads. -/
def storedValue (s : RunningCvd) : ℚ := (s.stored.bind C.parse).getD 0

/-- The bar that a flush takes. -/
def currentBar (s : RunningCvd) (isPartial : Bool) (nowMs : Int64) : Bar :=
  s.aw.acc.seedFromLastKnown.currentBar (truncateSecond nowMs) isPartial

/-- A delta counts when the bar is flushed, also when its row is not accepted.  Only that of a bar
with trades is written to Redis. -/
def flush (s : RunningCvd) (isPartial : Bool) (nowMs : Int64) (accepted : Bool) : RunningCvd :=
  let bar := s.currentBar isPartial nowMs
  let s' := { s with
    aw := (s.aw.flush isPartial nowMs accepted).1
    bars := if isPartial = false ∧ accepted = true then s.bars ++ [bar] else s.bars
    refused := if isPartial = false ∧ accepted = false then s.refused + bar.delta else s.refused }
  if isPartial = false ∧ bar.buyVolume.isSome ∧ bar.sellVolume.isSome then s'.persistCumDelta C
  else s'

/-- What has happened in memory, and not in Redis, by the stop. -/
def stopAt (s : RunningCvd) : Stop → RunningCvd
  | .between => s
  | .counted nowMs =>
      let bar := s.currentBar false nowMs
      { s with aw := (s.aw.addCumDelta false bar).1, refused := s.refused + bar.delta }
  | .cleared => { s with aw := s.aw.reset, bars := [], refused := 0 }

def restart (s : RunningCvd) (engine : Cascade.Engine) : RunningCvd :=
  { s with
    aw := { AccWriter.new s.aw.acc.exchange s.aw.acc.symbol with
      engine
      cumDelta := s.storedValue C
      prevCumDelta := s.storedValue C }
    gapUnsaved := false }

def step : Step RunningCvd Event Output := fun s ev =>
  match ev with
  | .apply price size isTrade side tsMs prev curr =>
      ({ s with aw := s.aw.apply N price size isTrade side tsMs prev curr }, [])
  | .flush isPartial nowMs accepted =>
      let s' := s.flush C isPartial nowMs accepted
      (s', (s.aw.flush isPartial nowMs accepted).2.toList.map fun f => .row f.row s'.bars)
  | .incrementGap =>
      ({ s with aw := s.aw.incrementGap, bars := [], refused := 0, gapUnsaved := true }, [])
  | .reset => ({ s with aw := s.aw.reset, bars := [], refused := 0 }.persistCumDelta C, [])
  | .restart stop engine =>
      let stopped := s.stopAt stop
      let restarted := stopped.restart C engine
      (restarted, [.restored stopped.aw.cumDelta restarted.aw.cumDelta])

/-- No full bar with trades gets its row when deltas were counted without one, and no process stops
with a sum that Redis does not have. -/
def Safe (s : RunningCvd) : Event → Prop
  | .flush isPartial nowMs accepted => isPartial = false → accepted = true →
      (s.currentBar false nowMs).buyVolume.isSome → s.refused = 0
  | .restart .between _ => s.gapUnsaved = true → s.storedValue C = 0
  | .restart (.counted nowMs) _ =>
      if s.gapUnsaved then s.storedValue C = (s.currentBar false nowMs).delta
      else (s.currentBar false nowMs).delta = 0
  | .restart .cleared _ => s.storedValue C = 0
  | _ => True

variable {C N} {s : RunningCvd}

/-! ### One flush -/

theorem cumDelta_addCumDelta (aw : AccWriter) (isPartial : Bool) {bar : Bar}
    (hboth : bar.buyVolume.isSome = bar.sellVolume.isSome) :
    (aw.addCumDelta isPartial bar).1.cumDelta =
      if isPartial then aw.cumDelta else aw.cumDelta + bar.delta := by
  cases isPartial with
  | true => rfl
  | false =>
      unfold AccWriter.addCumDelta Bar.delta
      cases hbuy : bar.buyVolume with
      | none =>
          rw [hbuy, Option.isSome_none, eq_comm, Option.isSome_eq_false_iff,
            Option.isNone_iff_eq_none] at hboth
          simp [hboth]
      | some buy =>
          cases hsell : bar.sellVolume with
          | none => simp [hbuy, hsell] at hboth
          | some sell => simp

theorem row_addCumDelta (aw : AccWriter) (isPartial : Bool) {bar : Bar}
    (hboth : bar.buyVolume.isSome = bar.sellVolume.isSome) (hnone : bar.cumDelta = none) :
    (aw.addCumDelta isPartial bar).2.cumDelta =
      if isPartial = false ∧ bar.buyVolume.isSome = true then some (aw.cumDelta + bar.delta)
      else none := by
  cases isPartial with
  | true => exact hnone
  | false =>
      unfold AccWriter.addCumDelta Bar.delta
      cases hbuy : bar.buyVolume with
      | none => simp [hnone]
      | some buy =>
          cases hsell : bar.sellVolume with
          | none => simp [hbuy, hsell] at hboth
          | some sell => simp

theorem volumes_currentBar (s : RunningCvd) (isPartial : Bool) (nowMs : Int64) :
    (s.currentBar isPartial nowMs).buyVolume.isSome =
        (s.currentBar isPartial nowMs).sellVolume.isSome ∧
      (s.currentBar isPartial nowMs).cumDelta = none := by
  refine ⟨?_, rfl⟩
  simp only [currentBar, BarAccumulator.currentBar]
  split <;> rfl

theorem delta_of_quiet {bar : Bar} (hboth : bar.buyVolume.isSome = bar.sellVolume.isSome)
    (h : ¬ bar.buyVolume.isSome = true) : bar.delta = 0 := by
  have hbuy : bar.buyVolume = none := by simpa using h
  have hsell : bar.sellVolume = none := by
    rw [hbuy, Option.isSome_none, eq_comm, Option.isSome_eq_false_iff,
      Option.isNone_iff_eq_none] at hboth
    exact hboth
  rw [Bar.delta, hbuy, hsell]
  exact sub_zero 0

theorem cumDelta_flush (s : RunningCvd) (isPartial : Bool) (nowMs : Int64) (accepted : Bool) :
    (s.aw.flush isPartial nowMs accepted).1.cumDelta =
      if isPartial then s.aw.cumDelta
      else s.aw.cumDelta + (s.currentBar isPartial nowMs).delta := by
  have hsum := cumDelta_addCumDelta { s.aw with acc := s.aw.acc.seedFromLastKnown } isPartial
    (volumes_currentBar s isPartial nowMs).1
  cases accepted with
  | false => exact hsum
  | true =>
      cases isPartial with
      | true => exact hsum
      | false => exact hsum

theorem row_flush (s : RunningCvd) (isPartial : Bool) (nowMs : Int64) :
    ∃ f, (s.aw.flush isPartial nowMs true).2 = some f ∧ f.row.cumDelta =
      if isPartial = false ∧ (s.currentBar isPartial nowMs).buyVolume.isSome = true then
        some (s.aw.cumDelta + (s.currentBar isPartial nowMs).delta) else none := by
  obtain ⟨hboth, hnone⟩ := volumes_currentBar s isPartial nowMs
  have hrow := row_addCumDelta { s.aw with acc := s.aw.acc.seedFromLastKnown } isPartial hboth hnone
  cases isPartial with
  | true => exact ⟨_, rfl, hrow⟩
  | false => exact ⟨_, rfl, hrow⟩

/-! ### The invariant -/

/-- The sum is that of the full bars and of what was counted without a row, and Redis knows it
unless a gap has come since. -/
structure Inv (C : FloatText) (s : RunningCvd) : Prop where
  sum : s.aw.cumDelta = (s.bars.map Bar.delta).sum + s.refused
  saved : s.gapUnsaved = false → s.storedValue C = s.aw.cumDelta
  unsaved : s.gapUnsaved = true → s.aw.cumDelta = 0

theorem inv_new (exchange symbol : String) : Inv C (new exchange symbol) where
  sum := (add_zero _).symm
  saved _ := rfl
  unsaved _ := rfl

theorem inv_persistCumDelta (h : s.aw.cumDelta = (s.bars.map Bar.delta).sum + s.refused) :
    Inv C (s.persistCumDelta C) where
  sum := h
  saved _ := by simp [storedValue, persistCumDelta, C.parse_format]
  unsaved hgap := Bool.noConfusion hgap

/-- The full bars and what was counted without a row, after a flush. -/
theorem counts_flush (s : RunningCvd) (isPartial : Bool) (nowMs : Int64) (accepted : Bool) :
    (s.flush C isPartial nowMs accepted).bars =
        (if isPartial = false ∧ accepted = true then s.bars ++ [s.currentBar isPartial nowMs]
        else s.bars) ∧
      (s.flush C isPartial nowMs accepted).refused =
        (if isPartial = false ∧ accepted = false then
          s.refused + (s.currentBar isPartial nowMs).delta else s.refused) := by
  unfold flush
  dsimp only
  split <;> exact ⟨rfl, rfl⟩

theorem inv_flush (h : Inv C s) (isPartial : Bool) (nowMs : Int64) (accepted : Bool) :
    Inv C (s.flush C isPartial nowMs accepted) := by
  have hcum := cumDelta_flush s isPartial nowMs accepted
  have hsum : (s.aw.flush isPartial nowMs accepted).1.cumDelta =
      ((if isPartial = false ∧ accepted = true then s.bars ++ [s.currentBar isPartial nowMs]
        else s.bars).map Bar.delta).sum +
      (if isPartial = false ∧ accepted = false then
        s.refused + (s.currentBar isPartial nowMs).delta else s.refused) := by
    rw [hcum, h.sum]
    cases isPartial with
    | true => simp
    | false =>
        cases accepted with
        | true => simp [add_right_comm]
        | false => simp [add_assoc]
  unfold flush
  dsimp only
  split
  · exact inv_persistCumDelta hsum
  next hquiet =>
    -- Without trades the sum stays.
    have hkept : (s.aw.flush isPartial nowMs accepted).1.cumDelta = s.aw.cumDelta := by
      rw [hcum]
      obtain ⟨hboth, -⟩ := volumes_currentBar s isPartial nowMs
      cases isPartial with
      | true => rfl
      | false =>
          have hnone : ¬ (s.currentBar false nowMs).buyVolume.isSome = true := by
            simpa [← hboth] using hquiet
          rw [delta_of_quiet hboth hnone]
          exact add_zero _
    exact ⟨hsum, fun hgap => (h.saved hgap).trans hkept.symm,
      fun hgap => hkept.trans (h.unsaved hgap)⟩

/-! ### Restarts -/

theorem inv_restart (hsum : s.aw.cumDelta = (s.bars.map Bar.delta).sum + s.refused)
    (h : s.storedValue C = s.aw.cumDelta) (engine : Cascade.Engine) :
    Inv C (s.restart C engine) where
  sum := h.trans hsum
  saved _ := rfl
  unsaved hgap := Bool.noConfusion hgap

theorem cumDelta_counted (s : RunningCvd) (nowMs : Int64) :
    (s.stopAt (.counted nowMs)).aw.cumDelta = s.aw.cumDelta + (s.currentBar false nowMs).delta :=
  cumDelta_addCumDelta s.aw false (volumes_currentBar s false nowMs).1

theorem sum_stopAt (h : Inv C s) (stop : Stop) :
    (s.stopAt stop).aw.cumDelta =
      ((s.stopAt stop).bars.map Bar.delta).sum + (s.stopAt stop).refused := by
  cases stop with
  | between => exact h.sum
  | counted nowMs =>
      rw [cumDelta_counted, h.sum]
      exact add_assoc _ _ _
  | cleared => exact (add_zero _).symm

/-- A process finds the sum that the one before had at its stop exactly when the stop is safe. -/
theorem storedValue_eq_iff (h : Inv C s) (stop : Stop) (engine : Cascade.Engine) :
    s.storedValue C = (s.stopAt stop).aw.cumDelta ↔ Safe C s (.restart stop engine) := by
  cases stop with
  | between =>
      show s.storedValue C = s.aw.cumDelta ↔ _
      cases hgap : s.gapUnsaved with
      | false => exact iff_of_true (h.saved hgap) fun hno => absurd hno (hgap ▸ Bool.false_ne_true)
      | true =>
          rw [h.unsaved hgap]
          exact ⟨fun hzero _ => hzero, fun hzero => hzero hgap⟩
  | counted nowMs =>
      rw [cumDelta_counted, Safe]
      cases hgap : s.gapUnsaved with
      | false =>
          rw [h.saved hgap, if_neg Bool.false_ne_true]
          exact left_eq_add
      | true =>
          rw [h.unsaved hgap, zero_add, if_pos rfl]
  | cleared => rfl

/-! ### Runs -/

theorem inv_step (h : Inv C s) (ev : Event) (hsafe : Safe C s ev) : Inv C (step C N s ev).1 := by
  cases ev with
  | apply price size isTrade side tsMs prev curr => exact ⟨h.sum, h.saved, h.unsaved⟩
  | flush isPartial nowMs accepted => exact inv_flush h isPartial nowMs accepted
  | incrementGap => exact ⟨(add_zero _).symm, fun hgap => Bool.noConfusion hgap, fun _ => rfl⟩
  | reset => exact inv_persistCumDelta (add_zero _).symm
  | restart stop engine =>
      refine inv_restart (sum_stopAt h stop) ?_ engine
      have hstored : (s.stopAt stop).storedValue C = s.storedValue C := by cases stop <;> rfl
      rw [hstored]
      exact (storedValue_eq_iff h stop engine).mpr hsafe

/-- A row of a full bar with trades says what was counted without a row, too. -/
theorem right_flush (h : Inv C s) (isPartial : Bool) (nowMs : Int64) (accepted : Bool) :
    (∀ o ∈ (step C N s (.flush isPartial nowMs accepted)).2, o.Right) ↔
      Safe C s (.flush isPartial nowMs accepted) := by
  cases accepted with
  | false =>
      exact iff_of_true (fun o ho => absurd ho List.not_mem_nil) fun _ hno => Bool.noConfusion hno
  | true =>
      obtain ⟨f, hf, hrow⟩ := row_flush s isPartial nowMs
      have hshown : (step C N s (.flush isPartial nowMs true)).2 =
          [.row f.row (s.flush C isPartial nowMs true).bars] := by
        simp only [step, hf, Option.toList_some, List.map_singleton]
      rw [hshown, List.forall_mem_singleton, Output.Right, hrow, (counts_flush s _ _ _).1]
      cases isPartial with
      | true => exact iff_of_true (fun x hx => by cases hx) fun hno => Bool.noConfusion hno
      | false =>
          by_cases htrades : (s.currentBar false nowMs).buyVolume.isSome = true
          · simp only [htrades, Safe, and_self, if_true, Option.mem_some_iff, forall_eq',
              List.map_append, List.sum_append, List.map_singleton, List.sum_singleton, h.sum,
              forall_const]
            rw [add_right_comm]
            exact add_eq_left
          · simp [htrades, Safe]

/-- A step shows what is right exactly when it is safe. -/
theorem right_step (h : Inv C s) (ev : Event) :
    (∀ o ∈ (step C N s ev).2, o.Right) ↔ Safe C s ev := by
  cases ev with
  | flush isPartial nowMs accepted => exact right_flush h isPartial nowMs accepted
  | restart stop engine =>
      rw [step, List.forall_mem_singleton]
      have hstored : (s.stopAt stop).storedValue C = s.storedValue C := by cases stop <;> rfl
      rw [← storedValue_eq_iff h stop engine, ← hstored]
      rfl
  | apply price size isTrade side tsMs prev curr =>
      exact iff_of_true (fun o ho => absurd ho List.not_mem_nil) trivial
  | incrementGap => exact iff_of_true (fun o ho => absurd ho List.not_mem_nil) trivial
  | reset => exact iff_of_true (fun o ho => absurd ho List.not_mem_nil) trivial

/-- A bar with a purchase, a gap, and a restart. -/
def gapThenRestart : List Event :=
  [.apply "7" "5" true "buy" 60100 ⟨"", "", "", ""⟩ ⟨"", "", "", ""⟩, .flush false 60900 true,
    .incrementGap, .restart .between (.new "bybit" "BTC-USDT")]

end RunningCvd

end MagnumOpus.Candle
