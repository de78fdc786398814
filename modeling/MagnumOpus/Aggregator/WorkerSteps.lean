import MagnumOpus.Aggregator.Worker

/-! # What each turn of a worker does

One lemma for each case of a turn: the worker it leaves and the effects it has.  Later modules
reason from these and do not open the handlers again.

* **Ticks.** `step_trade`, `step_buffered`, `step_update`.
* **Snapshots.** `step_snapshot_unexpected`, `step_snapshot_stale`, `step_snapshot_merged`.
* **Shutdown and panics.** `step_done`, `step_panicked`; after a panic the worker is buffering,
  its trackers are reset and a snapshot has been asked for. -/

namespace MagnumOpus.Aggregator.Worker

open EventMachine Reconnect

/-- The effects of writing the gap that a tick reveals. -/
def gapEffects (w : Worker) (t : Tick) (now : Int64) : List Effect :=
  match w.tickGap t now with
  | some g => [.streamGap w.exch w.sym g, .ilpGap w.exch w.sym g]
  | none => []

/-- The effects of publishing the book after a tick. -/
def publishEffects (w : Worker) (t : Tick) : List Effect :=
  if w.pub then [.publish w.exch w.sym (w.book.apply t.delta) t] else []

/-- The worker after an order-book tick outside of buffering. -/
def afterUpdate (w : Worker) (t : Tick) : Worker :=
  { track t w with book := w.book.apply t.delta }

/-- The worker after the merge of a snapshot. -/
def afterMerge (w : Worker) (r : SnapshotResult) : Worker :=
  { w with book := r.book, recon := ⟨.live, []⟩, lastSeq := r.seq, lastMsgSeqEnd := r.seq }

/-- The tick reveals a gap: the tracker that its exchange uses has seen something, and the tick
does not follow it. -/
def Reveals (w : Worker) (t : Tick) : Prop :=
  if t.msgSeqEnd ≠ 0 then
    0 < t.msgSeqStart ∧ 0 < w.lastMsgSeqEnd ∧ t.msgSeqStart ≠ w.lastMsgSeqEnd + 1
  else 0 < w.lastSeq ∧ t.seq ≠ w.lastSeq + 1

instance (w : Worker) (t : Tick) : Decidable (w.Reveals t) :=
  inferInstanceAs (Decidable
    (if t.msgSeqEnd ≠ 0 then
      0 < t.msgSeqStart ∧ 0 < w.lastMsgSeqEnd ∧ t.msgSeqStart ≠ w.lastMsgSeqEnd + 1
    else 0 < w.lastSeq ∧ t.seq ≠ w.lastSeq + 1))

/-- The gap between the tracker and the tick. -/
def gapBefore (w : Worker) (t : Tick) (now : Int64) : GapEvent where
  cause := .externalDisconnect
  seqBefore := if t.msgSeqEnd ≠ 0 then w.lastMsgSeqEnd else w.lastSeq
  seqAfter := if t.msgSeqEnd ≠ 0 then t.msgSeqStart else t.seq
  timestamp := now

theorem tickGap_eq (w : Worker) (t : Tick) (now : Int64) :
    w.tickGap t now = if w.Reveals t then some (w.gapBefore t now) else none := by
  unfold tickGap Reveals gapBefore detect
  by_cases hm : t.msgSeqEnd ≠ 0
  · simp only [hm, if_true, ne_eq, not_false_eq_true]
    split_ifs <;> simp_all
  · simp only [hm, if_false]
    split_ifs <;> simp_all

theorem exec_writeGap (g : GapEvent) (w : Worker) :
    exec (writeGap g) w = (w, [.streamGap w.exch w.sym g, .ilpGap w.exch w.sym g]) := rfl

@[simp] theorem track_recon (t : Tick) (w : Worker) : (track t w).recon = w.recon := by
  unfold track
  split <;> rfl

@[simp] theorem track_exch (t : Tick) (w : Worker) : (track t w).exch = w.exch := by
  unfold track
  split <;> rfl

@[simp] theorem track_sym (t : Tick) (w : Worker) : (track t w).sym = w.sym := by
  unfold track
  split <;> rfl

@[simp] theorem track_pub (t : Tick) (w : Worker) : (track t w).pub = w.pub := by
  unfold track
  split <;> rfl

@[simp] theorem track_book (t : Tick) (w : Worker) : (track t w).book = w.book := by
  unfold track
  split <;> rfl

@[simp] theorem track_returned (t : Tick) (w : Worker) : (track t w).returned = w.returned := by
  unfold track
  split <;> rfl

@[simp] theorem afterUpdate_recon (w : Worker) (t : Tick) : (w.afterUpdate t).recon = w.recon :=
  track_recon t w

@[simp] theorem afterUpdate_returned (w : Worker) (t : Tick) :
    (w.afterUpdate t).returned = w.returned := track_returned t w

@[simp] theorem afterUpdate_book (w : Worker) (t : Tick) :
    (w.afterUpdate t).book = w.book.apply t.delta := rfl

/-- The worker is live and its loop is running. -/
structure IsLive (w : Worker) : Prop where
  live : w.recon.state = .live
  running : w.returned = false

theorem IsLive.not_buffering {w : Worker} (h : w.IsLive) : w.recon.state ≠ .buffering := by
  rw [h.live]
  decide

theorem IsLive.afterUpdate {w : Worker} (h : w.IsLive) (t : Tick) : (w.afterUpdate t).IsLive :=
  ⟨by rw [afterUpdate_recon, h.live], by rw [afterUpdate_returned, h.running]⟩

theorem isLive_afterMerge {w : Worker} (h : w.returned = false) (r : SnapshotResult) :
    (w.afterMerge r).IsLive := ⟨rfl, h⟩

/-! ### Ticks -/

/-- What handling an order-book tick outside of buffering does: the tracker moves, and an update is
applied to the book. -/
theorem exec_handleTick {w : Worker} {t : Tick} {now : Int64} (hs : w.recon.state ≠ .buffering)
    (ht : t.type ≠ .trade) :
    exec (handleTick t now w) w =
      (if t.type = .update then w.afterUpdate t else track t w,
        w.gapEffects t now ++ ((if t.type = .update then [.applyDelta t.delta] else []) ++
          .streamWrite t :: .ilpWrite t ::
            if t.type = .update then w.publishEffects t else [])) := by
  rw [handleTick, if_neg ht, if_neg hs, exec_append, gapEffects]
  cases w.tickGap t now with
  | none =>
      by_cases hu : t.type = .update
      · simp [hu, update, emit, applyTick, publishBook, publishEffects, afterUpdate]
      · simp [hu, update, emit]
  | some g =>
      by_cases hu : t.type = .update
      · simp [hu, exec_writeGap, update, emit, applyTick, publishBook, publishEffects, afterUpdate]
      · simp [hu, exec_writeGap, update, emit]

theorem exec_handleTick_update {w : Worker} {t : Tick} {now : Int64}
    (hs : w.recon.state ≠ .buffering) (ht : t.type = .update) :
    exec (handleTick t now w) w =
      (w.afterUpdate t, w.gapEffects t now ++ .applyDelta t.delta :: .streamWrite t :: .ilpWrite t ::
        w.publishEffects t) := by
  have htrade : t.type ≠ .trade := by rw [ht]; decide
  rw [exec_handleTick hs htrade, if_pos ht, if_pos ht, if_pos ht]
  rfl

variable {w : Worker} {e : Event} {t : Tick} {r : SnapshotResult} {n : ℕ}

/-- A turn without a panic runs the whole handler. -/
theorem step_eq_exec (hw : w.returned = false) (hp : e.panicAt = none) :
    step w e = exec (body e w) w := by
  simp only [step, hw, hp, Bool.false_eq_true, if_false]

/-- Whether a handler panics does not matter to what it would do. -/
theorem exec_body_eq_step (hw : w.returned = false) (e : Event) :
    ∃ e', e'.panicAt = none ∧ e'.input = e.input ∧ exec (body e w) w = step w e' :=
  ⟨{ e with panicAt := none }, rfl, rfl,
    (step_eq_exec (e := { e with panicAt := none }) hw rfl).symm⟩

theorem exec_handleTick_trade {now : Int64} (ht : t.type = .trade) :
    exec (handleTick t now w) w =
      (w, if w.recon.state ≠ .buffering then [.streamWrite t, .ilpWrite t] else []) := by
  simp only [handleTick, ht, if_true]
  split <;> rfl

theorem exec_handleTick_buffered {now : Int64} (ht : t.type ≠ .trade)
    (hs : w.recon.state = .buffering) :
    exec (handleTick t now w) w = ({ w with recon := w.recon.feed t.seq }, []) := by
  simp only [handleTick, if_neg ht, if_pos hs]
  rfl

/-- A trade outside of buffering goes to the writers and nowhere else. -/
theorem step_trade (hw : w.returned = false) (hp : e.panicAt = none) (hi : e.input = .tick t)
    (ht : t.type = .trade) :
    step w e =
      (w, if w.recon.state ≠ .buffering then [.streamWrite t, .ilpWrite t] else []) := by
  rw [step_eq_exec hw hp, body, hi]
  exact exec_handleTick_trade ht

/-- While buffering, only the sequence of an order-book tick is kept. -/
theorem step_buffered (hw : w.returned = false) (hp : e.panicAt = none) (hi : e.input = .tick t)
    (ht : t.type ≠ .trade) (hs : w.recon.state = .buffering) :
    step w e = ({ w with recon := w.recon.feed t.seq }, []) := by
  rw [step_eq_exec hw hp, body, hi]
  exact exec_handleTick_buffered ht hs

/-- Outside of buffering an order-book tick is checked for a gap, applied and written. -/
theorem step_update (hw : w.returned = false) (hp : e.panicAt = none) (hi : e.input = .tick t)
    (ht : t.type = .update) (hs : w.recon.state ≠ .buffering) :
    step w e =
      (w.afterUpdate t, w.gapEffects t e.now ++ .applyDelta t.delta :: .streamWrite t ::
        .ilpWrite t :: w.publishEffects t) := by
  rw [step_eq_exec hw hp, body, hi]
  exact exec_handleTick_update hs ht

/-! ### Snapshots -/

theorem exec_handleSnapshot_unexpected {now : Int64} (hs : w.recon.state ≠ .buffering) :
    exec (handleSnapshot r now w) w = (w, []) := by
  simp only [handleSnapshot, if_pos hs]
  rfl

theorem step_snapshot_unexpected (hw : w.returned = false) (hp : e.panicAt = none)
    (hi : e.input = .snapshot r n) (hs : w.recon.state ≠ .buffering) : step w e = (w, []) := by
  rw [step_eq_exec hw hp, body, hi]
  exact exec_handleSnapshot_unexpected hs

theorem exec_handleSnapshot_stale {now : Int64} (hs : w.recon.state = .buffering)
    (hstale : w.recon.stale r.seq = true) :
    exec (handleSnapshot r now w) w = ({ w with book := r.book },
      [.streamGap w.exch w.sym (w.mergeErrorGap now), .ilpGap w.exch w.sym (w.mergeErrorGap now),
        .requestSnapshot w.exch w.sym ⟨"merge_error"⟩]) := by
  have hm := Machine.mergeSnapshot_of_stale hs hstale
  simp only [handleSnapshot, hs, ne_eq, not_true_eq_false, if_false, hm]
  simp [exec_append, exec_writeGap, update, requestSnapshot, hm, SnapshotResult.book,
    OrderBook.applySnapshot]

/-- A stale snapshot seeds the book all the same, leaves a marker and asks for another one. -/
theorem step_snapshot_stale (hw : w.returned = false) (hp : e.panicAt = none)
    (hi : e.input = .snapshot r n) (hs : w.recon.state = .buffering)
    (hstale : w.recon.stale r.seq = true) :
    step w e = ({ w with book := r.book },
      [.streamGap w.exch w.sym (w.mergeErrorGap e.now), .ilpGap w.exch w.sym (w.mergeErrorGap e.now),
        .requestSnapshot w.exch w.sym ⟨"merge_error"⟩]) := by
  rw [step_eq_exec hw hp, body, hi]
  exact exec_handleSnapshot_stale hs hstale

theorem exec_handleSnapshot_merged {now : Int64} (hs : w.recon.state = .buffering)
    (hstale : w.recon.stale r.seq = false) :
    exec (handleSnapshot r now w) w =
      (w.afterMerge r, [.streamSnapshot w.exch w.sym r.seq (unixMilli now)]) := by
  have hm := Machine.mergeSnapshot_of_not_stale hs hstale
  simp only [handleSnapshot, hs, ne_eq, not_true_eq_false, if_false, hm]
  simp [update, hm, afterMerge, SnapshotResult.book, OrderBook.applySnapshot, Machine.goLive]

/-- Any other snapshot seeds the book, anchors both trackers and goes live. -/
theorem step_snapshot_merged (hw : w.returned = false) (hp : e.panicAt = none)
    (hi : e.input = .snapshot r n) (hs : w.recon.state = .buffering)
    (hstale : w.recon.stale r.seq = false) :
    step w e = (w.afterMerge r, [.streamSnapshot w.exch w.sym r.seq (unixMilli e.now)]) := by
  rw [step_eq_exec hw hp, body, hi]
  exact exec_handleSnapshot_merged hs hstale

/-! ### Shutdown and panics -/

/-- The gap that the shutdown leaves behind when a snapshot is still outstanding. -/
def shutdownGap (w : Worker) (now : Int64) : GapEvent where
  cause := .externalDisconnect
  seqBefore := w.lastSeq
  seqAfter := w.lastSeq + 1
  timestamp := now

theorem exec_handleDone (now : Int64) :
    exec (handleDone now w) w = ({ w with returned := true },
      if w.recon.state = .buffering then
        [.streamGap w.exch w.sym (w.shutdownGap now), .ilpGap w.exch w.sym (w.shutdownGap now)]
      else []) := by
  simp only [handleDone]
  split <;> rfl

theorem step_done (hw : w.returned = false) (hp : e.panicAt = none) (hi : e.input = .done) :
    step w e = ({ w with returned := true },
      if w.recon.state = .buffering then
        [.streamGap w.exch w.sym (w.shutdownGap e.now), .ilpGap w.exch w.sym (w.shutdownGap e.now)]
      else []) := by
  rw [step_eq_exec hw hp, body, hi]
  exact exec_handleDone e.now

theorem step_returned (hw : w.returned = true) (e : Event) : step w e = (w, []) := by
  rw [step, if_pos hw]

theorem exec_recovery (now : Int64) (v w : Worker) :
    exec (recovery now v) w =
      ({ w with lastSeq := 0, lastMsgSeqEnd := 0, recon := ⟨.buffering, w.recon.buffer⟩ },
        [.streamGap w.exch w.sym (v.mergeErrorGap now), .ilpGap w.exch w.sym (v.mergeErrorGap now),
          .requestSnapshot w.exch w.sym ⟨"panic"⟩]) := rfl

/-- A panic does what came before it, leaves a marker, asks for a snapshot and buffers. -/
theorem step_panicked {k : ℕ} (hw : w.returned = false) (hp : e.panicAt = some k) :
    let before := exec ((body e w).take k) w
    step w e =
      ({ before.1 with lastSeq := 0, lastMsgSeqEnd := 0,
                       recon := ⟨.buffering, before.1.recon.buffer⟩,
                       returned := decide (e.input = .done) },
        before.2 ++
          [.streamGap before.1.exch before.1.sym (before.1.mergeErrorGap e.now),
            .ilpGap before.1.exch before.1.sym (before.1.mergeErrorGap e.now),
            .requestSnapshot before.1.exch before.1.sym ⟨"panic"⟩]) := by
  simp only [step, hw, hp, Bool.false_eq_true, if_false, panicked, exec_recovery]

end MagnumOpus.Aggregator.Worker
