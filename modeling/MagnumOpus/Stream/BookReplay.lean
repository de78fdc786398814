import MagnumOpus.Aggregator.GoingLive
import MagnumOpus.Stream.WireAgreement

/-! # The candle service's book next to the worker's

The entries that a worker writes to its stream are replayed, in order, into a fresh book of the
candle service, each side text read as the side that it means.

* **The hope.** `BooksAgree`: while the worker is live and has written no marker since its last
  snapshot, both books have the same bids and asks.
* **The design.** A snapshot entry carries a sequence number and no levels, so the candle book
  starts empty.  `agree_on_changes`: it then has the worker's level at every price that has changed
  since the snapshot, and no other prices, as long as the deltas rise from the snapshot's sequence
  and name a price and a size.
* **The invariant.** `Mirrors`: nothing is ever left in the cold buffer, a live worker has shown
  the candle book its snapshot, and the candle levels are the writes of the deltas since. -/

namespace MagnumOpus.Stream

open Aggregator EventMachine KeyedWrites Reconnect Strconv

/-! ### The replay -/

/-- The message with the side that its text means to the aggregator. -/
def meant : Candle.ParsedMessage → Candle.ParsedMessage
  | .tick t => .tick { t with side := match parseSide t.side with
                                      | .bid => "buy"
                                      | .ask => "sell" }
  | m => m

/-- Replays the entry that an effect leaves in the stream. -/
def replayEffect (ob : Candle.OrderBook) (f : Effect) : Candle.OrderBook :=
  match RedisWriter.entry f with
  | some fields => (ob.applyMessage (meant (Candle.parseMessage fields))).1
  | none => ob

/-- Replays the entries of all effects. -/
def replay (ob : Candle.OrderBook) (fs : List Effect) : Candle.OrderBook := fs.foldl replayEffect ob

/-- A turn of the worker and the replay of what it has written. -/
def replayStep : Step ((Worker × History) × Candle.OrderBook) Event Effect := fun p e =>
  (((Worker.recordedStep p.1 e).1, replay p.2 (Worker.recordedStep p.1 e).2),
    (Worker.recordedStep p.1 e).2)

/-- A worker and the candle book after a run; the book is fresh, with a cold buffer for `n`
deltas. -/
def replayRun (exch : String) (sym : Symbol) (pub : Bool) (n : ℕ) (es : List Event) :
    (Worker × History) × Candle.OrderBook :=
  final replayStep (((Worker.start (.new exch sym pub)).1, .new),
    replay (.new exch sym n) (Worker.start (.new exch sym pub)).2) es

/-- The levels of a side of the candle book. -/
def candleLevels (ob : Candle.OrderBook) : Side → Levels
  | .bid => ob.bids
  | .ask => ob.asks

/-- A live worker without a marker since its snapshot and the candle book have the same levels. -/
def BooksAgree (p : (Worker × History) × Candle.OrderBook) : Prop :=
  p.1.1.recon.state = .live → p.1.2.marked = false →
    p.2.bids = p.1.1.book.bids ∧ p.2.asks = p.1.1.book.asks

/-- The candle book has the level of a live worker without a marker at the prices that have changed
since its snapshot and no others, when the deltas since rise from the snapshot's sequence and each
names a price and a size. -/
def AgreeOnChanges (p : (Worker × History) × Candle.OrderBook) : Prop :=
  p.1.1.recon.state = .live → p.1.2.marked = false → ∀ r, p.1.2.merged = some r →
    (r.seq :: p.1.2.since.map Delta.seq).IsChain (· < ·) →
    (∀ d ∈ p.1.2.since, d.price ≠ "" ∧ d.size ≠ "") →
      ∀ side price, (candleLevels p.2 side).lookup price =
        if ∃ d ∈ p.1.2.since, d.side = side ∧ d.price = price then
          (p.1.1.book.levels side).lookup price
        else none

/-! ### What the entries do to the candle book -/

section Entries

variable (ob : Candle.OrderBook)

theorem replay_append (fs gs : List Effect) : replay ob (fs ++ gs) = replay (replay ob fs) gs :=
  List.foldl_append

theorem replayEffect_trade {t : Aggregator.Tick} (ht : t.type = .trade) :
    replayEffect ob (.streamWrite t) = ob := by
  simp [replayEffect, RedisWriter.entry, parseMessage_tickFields, meant, readTick, ht,
    Candle.OrderBook.applyMessage, Candle.OrderBook.applyTick]

/-- The write a delta makes to the candle levels of `side`. -/
def candleWrites (side : Side) (d : Delta) : List (String × Option String) :=
  if d.side = side then [(d.price, if d.size = "0" then none else some d.size)] else []

theorem replayEffect_update {t : Aggregator.Tick} (ht : t.type ≠ .trade)
    (hseen : ob.snapshotSeen = true) :
    let ob' := replayEffect ob (.streamWrite t)
    ob'.coldBuf = ob.coldBuf ∧ ob'.maxColdSeq = ob.maxColdSeq ∧ ob'.snapshotSeen = true ∧
      ∀ side, candleLevels ob' side =
        writes (candleLevels ob side) (candleWrites side t.delta) := by
  simp only [replayEffect, RedisWriter.entry, parseMessage_tickFields, meant, readTick, ht,
    Candle.OrderBook.applyMessage, Candle.OrderBook.applyTick, hseen, if_false]
  cases hside : parseSide t.side with
  | bid =>
      refine ⟨rfl, rfl, hseen, fun side => ?_⟩
      cases side <;> simp [candleLevels, candleWrites, Tick.delta, hside,
        Candle.OrderBook.applyDelta, Candle.OrderBook.setLevel]
  | ask =>
      refine ⟨rfl, rfl, hseen, fun side => ?_⟩
      cases side <;> simp [candleLevels, candleWrites, Tick.delta, hside,
        Candle.OrderBook.applyDelta, Candle.OrderBook.setLevel]

theorem parseMessage_gapFields (exch : String) (sym : Symbol) (g : GapEvent) :
    ∃ m, Candle.parseMessage (RedisWriter.gapFields exch sym g) = .gap m ∧
      m.gapCause = g.cause.text := by
  simp [Candle.parseMessage, RedisWriter.gapFields, Candle.getString, List.lookup_cons]

/-- A gap clears the cold buffer; only an internal merge error makes the book wait again. -/
theorem replayEffect_gap (exch : String) (sym : Symbol) (g : GapEvent) :
    let ob' := replayEffect ob (.streamGap exch sym g)
    ob'.coldBuf = [] ∧ ob'.maxColdSeq = 0 ∧
      (g.cause = .externalDisconnect → ob'.snapshotSeen = ob.snapshotSeen) := by
  obtain ⟨m, hm, hcause⟩ := parseMessage_gapFields exch sym g
  simp only [replayEffect, RedisWriter.entry, hm, meant, Candle.OrderBook.applyMessage,
    Candle.OrderBook.applyGap, hcause]
  refine ⟨by split <;> rfl, by split <;> rfl, fun h => ?_⟩
  rw [h, if_neg (by decide)]

theorem replayEffect_snapshot (exch : String) (sym : Symbol) (seq : UInt64) (tsMs : Int64)
    (hbuf : ob.coldBuf = []) (hmax : ob.maxColdSeq = 0) :
    let ob' := replayEffect ob (.streamSnapshot exch sym seq tsMs)
    ob'.coldBuf = [] ∧ ob'.maxColdSeq = 0 ∧ ob'.snapshotSeen = true ∧
      ∀ side, candleLevels ob' side = ∅ := by
  have hread : Candle.parseMessage (RedisWriter.snapshotFields exch sym seq tsMs) =
      .snapshot ⟨parseInt (formatUint seq), parseInt (formatInt tsMs)⟩ := by
    simp [Candle.parseMessage, RedisWriter.snapshotFields, Candle.getString, Candle.parseInt64,
      List.lookup_cons]
  simp only [replayEffect, RedisWriter.entry, hread, meant, Candle.OrderBook.applyMessage,
    Candle.OrderBook.applySnapshot]
  cases hseen : ob.snapshotSeen with
  | true => exact ⟨rfl, rfl, rfl, fun side => by cases side <;> rfl⟩
  | false =>
      have hreset : ∀ s, ob.seqReset s = false := by
        intro s
        simp [Candle.OrderBook.seqReset, hmax]
      rw [if_neg Bool.false_ne_true, hreset, if_neg Bool.false_ne_true, hbuf]
      exact ⟨rfl, rfl, rfl, fun side => by cases side <;> rfl⟩

end Entries

/-! ### The invariant -/

/-- What is known of the candle book next to a worker. -/
structure Mirrors (p : (Worker × History) × Candle.OrderBook) : Prop where
  coldBuf : p.2.coldBuf = []
  maxColdSeq : p.2.maxColdSeq = 0
  seen : p.1.1.recon.state = .live → p.2.snapshotSeen = true
  levels : p.1.1.recon.state = .live → p.1.2.marked = false →
    ∀ side, candleLevels p.2 side = writes ∅ (p.1.2.since.flatMap (candleWrites side))

variable {w w' : Worker} {h h' : History} {ob ob' : Candle.OrderBook}

/-- What a turn of the worker makes of everything else. -/
theorem replayStep_of_step {e : Event} {fs : List Effect} (hstep : Worker.step w e = (w', fs)) :
    (replayStep ((w, h), ob) e).1 = ((w', h.next w e w' fs), replay ob fs) := by
  simp only [replayStep, Worker.recordedStep, hstep]

theorem Mirrors.same (hm : Mirrors ((w, h), ob)) (hstate : w'.recon.state = w.recon.state)
    (hmarked : h'.marked = h.marked) (hsince : h'.since = h.since) (hob : ob' = ob) :
    Mirrors ((w', h'), ob') := by
  subst hob
  refine ⟨hm.coldBuf, hm.maxColdSeq, fun hlive => hm.seen (hstate ▸ hlive), fun hlive hmark => ?_⟩
  rw [hsince]
  exact hm.levels (hstate ▸ hlive) (hmarked ▸ hmark)

/-- While the worker is not live, there is only the cold buffer to look at. -/
theorem Mirrors.of_not_live (hstate : w.recon.state ≠ .live) (hbuf : ob.coldBuf = [])
    (hmax : ob.maxColdSeq = 0) : Mirrors ((w, h), ob) :=
  ⟨hbuf, hmax, fun hlive => absurd hlive hstate, fun hlive => absurd hlive hstate⟩

theorem replay_publishEffects (w : Worker) (t : Aggregator.Tick) :
    replay ob (w.publishEffects t) = ob := by
  unfold Worker.publishEffects
  split <;> rfl

theorem mirrors_update {t : Aggregator.Tick} {e : Event} (hm : Mirrors ((w, h), ob))
    (hw : w.returned = false) (hp : e.panicAt = none) (hi : e.input = .tick t)
    (ht : t.type = .update) (hs : w.recon.state = .live) :
    Mirrors (replayStep ((w, h), ob) e).1 := by
  have hnot : w.recon.state ≠ .buffering := by
    rw [hs]
    decide
  have htrade : t.type ≠ .trade := by
    rw [ht]
    decide
  -- What the gap, if there is one, does to the candle book.
  obtain ⟨hbuf, hmax, hseen, hsame⟩ : (replay ob (w.gapEffects t e.now)).coldBuf = [] ∧
      (replay ob (w.gapEffects t e.now)).maxColdSeq = 0 ∧
      (replay ob (w.gapEffects t e.now)).snapshotSeen = true ∧
      ((w.gapEffects t e.now).any isGap = false → replay ob (w.gapEffects t e.now) = ob) := by
    unfold Worker.gapEffects
    rw [Worker.tickGap_eq]
    by_cases hr : w.Reveals t
    · rw [if_pos hr]
      have hgap := replayEffect_gap ob w.exch w.sym (w.gapBefore t e.now)
      exact ⟨hgap.1, hgap.2.1, (hgap.2.2 rfl).trans (hm.seen hs), fun h => by cases h⟩
    · rw [if_neg hr]
      exact ⟨hm.coldBuf, hm.maxColdSeq, hm.seen hs, fun _ => rfl⟩
  obtain ⟨hbuf', hmax', hseen', hlevels⟩ := replayEffect_update _ htrade hseen
  have hreplay : replay ob (w.gapEffects t e.now ++ .applyDelta t.delta :: .streamWrite t ::
      .ilpWrite t :: w.publishEffects t) =
      replayEffect (replay ob (w.gapEffects t e.now)) (.streamWrite t) := by
    rw [replay_append]
    exact replay_publishEffects w t
  have hdelta : deltaOf e = [t.delta] := by simp only [deltaOf, hi, ht, if_true]
  rw [replayStep_of_step (Worker.step_update hw hp hi ht hnot), hreplay,
    History.next_tick hw hi, hdelta]
  refine ⟨hbuf'.trans hbuf, hmax'.trans hmax, fun _ => hseen', fun _ hmark side => ?_⟩
  simp only [List.any_append, Bool.or_eq_false_iff] at hmark
  obtain ⟨hmark, hnogap, -⟩ := hmark
  calc candleLevels (replayEffect (replay ob (w.gapEffects t e.now)) (.streamWrite t)) side
      = writes (candleLevels (replay ob (w.gapEffects t e.now)) side)
          (candleWrites side t.delta) := hlevels side
    _ = writes (writes ∅ (h.since.flatMap (candleWrites side))) (candleWrites side t.delta) := by
        rw [hsame hnogap, hm.levels hs hmark]
    _ = writes ∅ ((h.since ++ [t.delta]).flatMap (candleWrites side)) := by
        rw [List.flatMap_append, writes_append, List.flatMap_singleton]

/-- An adapter hands over updates and trades only. -/
def FromAdapter (e : Event) : Prop := ∀ t, e.input = .tick t → t.type ≠ .snapshot

/-- **One turn** keeps the candle book next to the worker's. -/
theorem mirrors_step {e : Event} (hrec : Worker.Recorded (w, h)) (hm : Mirrors ((w, h), ob))
    (he : FromAdapter e) : Mirrors (replayStep ((w, h), ob) e).1 := by
  cases hw : w.returned with
  | true =>
      rw [replayStep_of_step (Worker.step_returned hw e)]
      refine hm.same rfl ?_ ?_ rfl <;> simp [History.next, hw]
  | false =>
      cases hp : e.panicAt with
      | some k =>
          -- The recovery ends with a marker, whatever has been written before it.
          rw [replayStep_of_step (Worker.step_panicked hw hp), replay_append]
          have hgap := replayEffect_gap (replay ob (exec ((Worker.body e w).take k) w).2)
          exact .of_not_live (by simp) (hgap _ _ _).1 (hgap _ _ _).2.1
      | none =>
          cases hi : e.input with
          | done =>
              rw [replayStep_of_step (Worker.step_done hw hp hi)]
              by_cases hs : w.recon.state = .buffering
              · rw [if_pos hs]
                have hgap := replayEffect_gap ob w.exch w.sym (w.shutdownGap e.now)
                exact .of_not_live (by simp [hs]) hgap.1 hgap.2.1
              · rw [if_neg hs]
                refine hm.same rfl ?_ ?_ rfl <;> simp [History.next, hw, hi, deltaOf]
          | snapshot r k =>
              by_cases hs : w.recon.state = .buffering
              · cases hstale : w.recon.stale r.seq with
                | true =>
                    rw [replayStep_of_step (Worker.step_snapshot_stale hw hp hi hs hstale)]
                    have hgap := replayEffect_gap ob w.exch w.sym (w.mergeErrorGap e.now)
                    exact .of_not_live (by simp [hs]) hgap.1 hgap.2.1
                | false =>
                    rw [replayStep_of_step (Worker.step_snapshot_merged hw hp hi hs hstale)]
                    obtain ⟨hbuf, hmax, hseen, hlevels⟩ := replayEffect_snapshot ob w.exch w.sym
                      r.seq (unixMilli e.now) hm.coldBuf hm.maxColdSeq
                    refine ⟨hbuf, hmax, fun _ => hseen, fun _ _ side => ?_⟩
                    simp only [History.next, hw, hi, hs, Worker.afterMerge]
                    exact hlevels side
              · rw [replayStep_of_step (Worker.step_snapshot_unexpected hw hp hi hs)]
                refine hm.same rfl ?_ ?_ rfl <;> simp [History.next, hw, hi, hs]
          | tick t =>
              by_cases ht : t.type = .trade
              · rw [replayStep_of_step (Worker.step_trade hw hp hi ht), History.next_tick hw hi]
                refine hm.same rfl ?_ ?_ ?_
                · split <;> simp [isGap]
                · simp [deltaOf, hi, ht]
                · split
                  · exact replayEffect_trade ob ht
                  · rfl
              · by_cases hs : w.recon.state = .buffering
                · rw [replayStep_of_step (Worker.step_buffered hw hp hi ht hs)]
                  exact .of_not_live (by simp [hs]) hm.coldBuf hm.maxColdSeq
                · have hlive : w.recon.state = .live := by
                    have hentered := hrec.entered
                    cases hstate : w.recon.state <;> simp_all
                  have hu : t.type = .update := by
                    have hsnap := he t hi
                    cases htype : t.type <;> simp_all
                  exact mirrors_update hm hw hp hi hu hlive

/-! ### Both books at a live point -/

theorem mirrors_run (exch : String) (sym : Symbol) (pub : Bool) (n : ℕ) {es : List Event}
    (hes : ∀ e ∈ es, FromAdapter e) :
    Worker.Recorded (replayRun exch sym pub n es).1 ∧ Mirrors (replayRun exch sym pub n es) := by
  refine final_invariant_along (I := fun p => Worker.Recorded p.1 ∧ Mirrors p) ?_ es ?_
    (along_of_forall hes)
  · rintro ⟨⟨w, h⟩, ob⟩ e ⟨hrec, hm⟩ he
    exact ⟨Worker.recorded_step hrec, mirrors_step hrec hm he⟩
  · exact ⟨Worker.recorded_of_buffering rfl, .of_not_live State.noConfusion rfl rfl⟩

/-- A delta that names a price and a size makes the same write in both books. -/
theorem candleWrites_eq_writesTo {d : Delta} (hd : d.price ≠ "" ∧ d.size ≠ "") (side : Side) :
    candleWrites side d = OrderBook.writesTo side d := by
  simp [candleWrites, OrderBook.writesTo, OrderBook.levelSize, hd.1, hd.2]

theorem mem_writesTo {ds : List Delta} (hds : ∀ d ∈ ds, d.price ≠ "" ∧ d.size ≠ "") {side : Side}
    {price : String} :
    price ∈ (ds.flatMap (OrderBook.writesTo side)).map Prod.fst ↔
      ∃ d ∈ ds, d.side = side ∧ d.price = price := by
  simp only [List.mem_map, List.mem_flatMap]
  constructor
  · rintro ⟨ws, ⟨d, hd, hmem⟩, rfl⟩
    unfold OrderBook.writesTo at hmem
    split at hmem
    · next hside =>
        obtain rfl := List.mem_singleton.mp hmem
        exact ⟨d, hd, hside.1, rfl⟩
    · cases hmem
  · rintro ⟨d, hd, rfl, rfl⟩
    refine ⟨(d.price, OrderBook.levelSize d.size), ⟨d, hd, ?_⟩, rfl⟩
    rw [OrderBook.writesTo, if_pos ⟨rfl, (hds d hd).1⟩]
    exact List.mem_singleton_self _

/-- **At the prices that have changed since the snapshot the two books agree**, and the candle book
has no others. -/
theorem agree_on_changes (exch : String) (sym : Symbol) (pub : Bool) (n : ℕ) {es : List Event}
    (hes : ∀ e ∈ es, FromAdapter e) : AgreeOnChanges (replayRun exch sym pub n es) := by
  intro hlive hmarked r hr hchain hnames side price
  obtain ⟨hrec, hm⟩ := mirrors_run exch sym pub n hes
  generalize replayRun exch sym pub n es = p at *
  obtain ⟨⟨w, h⟩, ob⟩ := p
  obtain ⟨r', hr', hbook⟩ := hrec.book hlive
  obtain rfl : r = r' := Option.some.inj (hr.symm.trans hr')
  have hpriced : OrderBook.priced h.since = h.since :=
    List.filter_eq_self.mpr fun d hd => by simpa using (hnames d hd).1
  have hheeded : r.book.Heeded h.since := by
    rw [OrderBook.heeded_iff_isChain, hpriced]
    exact hchain
  have hworker : w.book.levels side =
      writes (r.book.levels side) (h.since.flatMap (OrderBook.writesTo side)) := by
    rw [hbook, OrderBook.applyAll_eq_changeAll hheeded, OrderBook.levels_changeAll]
  have hcandle : candleLevels ob side =
      writes ∅ (h.since.flatMap (OrderBook.writesTo side)) := by
    rw [hm.levels hlive hmarked side]
    congr 1
    exact List.flatMap_congr fun d hd => candleWrites_eq_writesTo (hnames d hd) side
  have hkeys : price ∈ (h.since.flatMap (OrderBook.writesTo side)).map Prod.fst ↔ _ :=
    mem_writesTo hnames
  simp only [hcandle, hworker]
  by_cases hmem : price ∈ (h.since.flatMap (OrderBook.writesTo side)).map Prod.fst
  · rw [if_pos (hkeys.mp hmem)]
    exact lookup_writes_congr _ _ hmem
  · rw [if_neg fun hex => hmem (hkeys.mpr hex), lookup_writes_of_not_mem _ hmem,
      Finmap.lookup_empty]

/-! ### Two runs -/

/-- A snapshot at 5 with one bid. -/
def snapshotWithBid : Event := { input := .snapshot ⟨5, Finmap.insert "99" "1" ∅, ∅⟩ 0, now := 0 }

theorem changed_bid_agrees :
    (replayRun "bybit" "BTC-USDT" false 1000
      [snapshotWithBid, Worker.tickSix]).2.bids.lookup "100" =
      some "1" := by
  have hes : ∀ e ∈ [snapshotWithBid, Worker.tickSix], FromAdapter e := by
    intro e he t ht
    rcases List.mem_pair.mp he with rfl | rfl <;> cases ht
    decide
  have hagree := agree_on_changes "bybit" "BTC-USDT" false 1000 hes
  exact (hagree (by decide) (by decide) ⟨5, Finmap.insert "99" "1" ∅, ∅⟩ (by decide) (by decide)
    (by decide) .bid "100").trans (by decide)

/-- The bid at 99 that the snapshot carried is not. -/
theorem snapshot_bid_is_missing :
    ¬ BooksAgree (replayRun "bybit" "BTC-USDT" false 1000 [snapshotWithBid]) := by
  intro h
  have hbids := congrArg (Finmap.lookup "99") (h (by decide) (by decide)).1
  revert hbids
  decide

end MagnumOpus.Stream
