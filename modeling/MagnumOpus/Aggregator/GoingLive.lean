import MagnumOpus.Aggregator.BatchApply
import MagnumOpus.Aggregator.Resync

/-! # What the book of a live worker holds

A worker goes live when it merges a snapshot.  `History` records, along a run, the deltas it has
received, the snapshot it has merged last and what has happened since.

* **The hope.** `Complete`: the book of a live worker is the snapshot with *every* delta received
  past it applied on top, those from before the merge included.
* **The design.** While buffering only sequence numbers are kept, so the deltas that a snapshot
  lacks are not there to be replayed.  `book_of_live`: the book is the snapshot with the deltas
  received since the merge on top; when these rise, none of them is missing. -/

namespace MagnumOpus.Aggregator

open EventMachine Reconnect

/-- What has happened to a worker. -/
structure History where
  /-- The deltas of all order-book ticks that have been received. -/
  received : List Delta
  /-- The snapshot that was merged last. -/
  merged : Option SnapshotResult
  /-- The deltas received since. -/
  since : List Delta
  /-- A gap marker has been written since. -/
  marked : Bool
deriving DecidableEq

/-- The delta that an event brings. -/
def deltaOf (e : Event) : List Delta :=
  match e.input with
  | .tick t => if t.type = .update then [t.delta] else []
  | _ => []

namespace History

def new : History := ⟨[], none, [], false⟩

/-- The history after the turn that leads from `w` to `w'`. -/
def next (h : History) (w : Worker) (e : Event) (w' : Worker) (effects : List Effect) : History :=
  if w.returned then h
  else
    match e.input with
    | .snapshot r _ =>
        if w.recon.state = .buffering ∧ w'.recon.state = .live then
          { h with merged := some r, since := [], marked := false }
        else { h with marked := h.marked || effects.any isGap }
    | _ =>
        { h with received := h.received ++ deltaOf e, since := h.since ++ deltaOf e,
                 marked := h.marked || effects.any isGap }

/-- A tick is recorded with its delta and its markers. -/
theorem next_tick {w : Worker} {e : Event} {t : Tick} (hw : w.returned = false)
    (hi : e.input = .tick t) (h : History) (w' : Worker) (effects : List Effect) :
    h.next w e w' effects =
      { h with received := h.received ++ deltaOf e, since := h.since ++ deltaOf e,
               marked := h.marked || effects.any isGap } := by
  simp only [next, hw, hi, Bool.false_eq_true, if_false]

end History

namespace Worker

/-- A turn of the loop with its history. -/
def recordedStep : Step (Worker × History) Event Effect := fun p e =>
  (((step p.1 e).1, p.2.next p.1 e (step p.1 e).1 (step p.1 e).2), (step p.1 e).2)

/-- A worker and its history after a run. -/
def recordedRun (exch : String) (sym : Symbol) (pub : Bool) (es : List Event) : Worker × History :=
  final recordedStep ((start (new exch sym pub)).1, .new) es

/-- The book of a live worker without a gap is its snapshot with every delta received past it, in
sequence order. -/
def Complete (p : Worker × History) : Prop :=
  p.1.recon.state = .live → p.2.marked = false → ∀ r, p.2.merged = some r →
    p.1.book = r.book.changeAll (bySeq (p.2.received.filter fun d => r.seq < d.seq))

/-- The book of a live worker is its snapshot with the deltas received since the merge applied on
top, each dropped when it is not past the one before.  When the deltas past the snapshot rise, all
of them are in the book, in sequence order. -/
def CompleteSinceMerge (p : Worker × History) : Prop :=
  p.1.recon.state = .live → ∃ r, p.2.merged = some r ∧ p.1.book = r.book.applyAll p.2.since ∧
    (((OrderBook.priced (p.2.since.filter fun d => r.seq < d.seq)).map Delta.seq).Pairwise (· < ·) →
      p.1.book = r.book.changeAll (bySeq (p.2.since.filter fun d => r.seq < d.seq)))

/-- What is known of a worker with its history: it has asked for a snapshot, and when it is live
its book comes from the merged one. -/
structure Recorded (p : Worker × History) : Prop where
  entered : p.1.recon.state ≠ .initial
  book : p.1.recon.state = .live →
    ∃ r, p.2.merged = some r ∧ p.1.book = r.book.applyAll p.2.since

/-- A turn that keeps the book and the machine's state, and brings no delta. -/
theorem Recorded.same {w w' : Worker} {h h' : History} (hrec : Recorded (w, h))
    (hstate : w'.recon.state = w.recon.state) (hbook : w'.book = w.book)
    (hmerged : h'.merged = h.merged) (hsince : h'.since = h.since) : Recorded (w', h') := by
  refine ⟨by rw [hstate]; exact hrec.entered, fun hlive => ?_⟩
  obtain ⟨r, hr, hb⟩ := hrec.book (hstate ▸ hlive)
  exact ⟨r, hmerged.trans hr, by rw [hbook, hb, hsince]⟩

/-- A worker that is buffering after a turn has nothing to show. -/
theorem recorded_of_buffering {p : Worker × History} (h : p.1.recon.state = .buffering) :
    Recorded p :=
  ⟨by rw [h]; decide, fun hlive => by rw [h] at hlive; cases hlive⟩

theorem recorded_step {p : Worker × History} {e : Event} (hrec : Recorded p) :
    Recorded (recordedStep p e).1 := by
  obtain ⟨w, h⟩ := p
  cases hw : w.returned with
  | true =>
      refine hrec.same ?_ ?_ ?_ ?_ <;>
        simp [step_returned hw, History.next, hw]
  | false =>
      cases hp : e.panicAt with
      | some k =>
          refine recorded_of_buffering ?_
          simp only [recordedStep, step_panicked hw hp]
      | none =>
          cases hi : e.input with
          | done =>
              refine hrec.same ?_ ?_ ?_ ?_ <;>
                simp [step_done hw hp hi, History.next, hw, hi, deltaOf]
          | snapshot r k =>
              by_cases hs : w.recon.state = .buffering
              · cases hstale : w.recon.stale r.seq with
                | true =>
                    refine recorded_of_buffering ?_
                    simp only [recordedStep, step_snapshot_stale hw hp hi hs hstale, hs]
                | false =>
                    refine ⟨?_, fun _ => ⟨r, ?_, ?_⟩⟩
                    · simp [recordedStep, step_snapshot_merged hw hp hi hs hstale, afterMerge]
                    · simp [recordedStep, step_snapshot_merged hw hp hi hs hstale, afterMerge,
                        History.next, hw, hi, hs]
                    · simp [recordedStep, step_snapshot_merged hw hp hi hs hstale, afterMerge,
                        History.next, hw, hi, hs]
              · refine hrec.same ?_ ?_ ?_ ?_ <;>
                  simp [step_snapshot_unexpected hw hp hi hs, History.next, hw, hi, hs]
          | tick t =>
              by_cases ht : t.type = .trade
              · refine hrec.same ?_ ?_ ?_ ?_ <;>
                  simp [step_trade hw hp hi ht, History.next, hw, hi, deltaOf, ht]
              · by_cases hs : w.recon.state = .buffering
                · refine recorded_of_buffering ?_
                  simp [recordedStep, step_buffered hw hp hi ht hs, hs]
                · have hstep : step w e = exec (handleTick t e.now w) w := by
                    rw [step_eq_exec hw hp, body, hi]
                  by_cases hu : t.type = .update
                  · refine ⟨?_, fun hlive => ?_⟩
                    · simpa [recordedStep, step_update hw hp hi hu hs] using hrec.entered
                    · obtain ⟨r, hr, hb⟩ := hrec.book (by
                        simpa [recordedStep, step_update hw hp hi hu hs] using hlive)
                      simp only at hr hb
                      refine ⟨r, by simp [recordedStep, History.next, hw, hi, hr], ?_⟩
                      simp [recordedStep, step_update hw hp hi hu hs, History.next, hw, hi,
                        deltaOf, hu, hb, OrderBook.applyAll_append]
                  · refine hrec.same ?_ ?_ ?_ ?_ <;>
                      simp [hstep, exec_handleTick hs ht, History.next, hw, hi, deltaOf, hu]

theorem recorded_run (exch : String) (sym : Symbol) (pub : Bool) (es : List Event) :
    Recorded (recordedRun exch sym pub es) :=
  final_invariant (fun _ _ hrec => recorded_step hrec) es (recorded_of_buffering rfl)

end Worker

/-! ### What the merged snapshot and the deltas make of the book -/

/-- Deltas up to a number that the book is past make no difference. -/
theorem OrderBook.applyAll_filter {n : UInt64} : ∀ {ob : OrderBook} (ds : List Delta),
    n ≤ ob.lastSeq → ob.applyAll (ds.filter fun d => n < d.seq) = ob.applyAll ds
  | _, [], _ => rfl
  | ob, d :: ds, hn => by
      by_cases hd : n < d.seq
      · rw [List.filter_cons_of_pos (by simpa using hd), applyAll_cons, applyAll_cons]
        exact applyAll_filter ds (UInt64.le_trans hn (lastSeq_le_apply ob d))
      · have hle : d.seq ≤ ob.lastSeq := UInt64.le_trans (UInt64.not_lt.mp hd) hn
        rw [List.filter_cons_of_neg (by simpa using hd), applyAll_cons, apply_of_le hle]
        exact applyAll_filter ds hn

namespace Worker

/-- **What a live worker has received since the merge is in its book**, at every point of every
run. -/
theorem book_of_live (exch : String) (sym : Symbol) (pub : Bool) (es : List Event) :
    CompleteSinceMerge (recordedRun exch sym pub es) := by
  intro hlive
  obtain ⟨r, hr, hbook⟩ := (recorded_run exch sym pub es).book hlive
  refine ⟨r, hr, hbook, fun hrise => ?_⟩
  have hpast : ∀ d ∈ (recordedRun exch sym pub es).2.since.filter (fun d => r.seq < d.seq),
      r.book.lastSeq < d.seq := by
    intro d hd
    have hlt : r.seq < d.seq := by simpa using List.of_mem_filter hd
    exact hlt
  rw [hbook, ← OrderBook.applyAll_filter _ (UInt64.le_refl r.book.lastSeq)]
  exact OrderBook.applyAll_eq_bySeq hpast hrise

/-! ### Two runs -/

/-- The tick at 6. -/
def tickSix : Event := tickEvent (bidTick 6 "100")

/-- The snapshot at 5. -/
def snapshotAtFive : Event := { input := .snapshot ⟨5, ∅, ∅⟩ 0, now := 0 }

/-- After the merge the delta at 6 is in the book. -/
theorem book_of_live_at_six :
    (recordedRun "bybit" "BTC-USDT" false [snapshotAtFive, tickSix]).1.book =
      (SnapshotResult.book ⟨5, ∅, ∅⟩).changeAll (bySeq [(bidTick 6 "100").delta]) := by
  obtain ⟨r, hr, -, hrise⟩ := book_of_live "bybit" "BTC-USDT" false [snapshotAtFive, tickSix]
    (by decide)
  obtain rfl : (⟨5, ∅, ∅⟩ : SnapshotResult) = r := Option.some.inj hr
  exact hrise (by decide)

/-- The delta at 6 is received before the snapshot at 5 is merged: the worker goes live without a
marker, and without the delta. -/
theorem buffered_delta_is_lost :
    ¬ Complete (recordedRun "bybit" "BTC-USDT" false [tickSix, snapshotAtFive]) := by
  intro h
  have hbook := congrArg (fun ob : OrderBook => ob.bids.lookup "100")
    (h (by decide) (by decide) ⟨5, ∅, ∅⟩ (by decide))
  revert hbook
  decide

end Worker

end MagnumOpus.Aggregator
