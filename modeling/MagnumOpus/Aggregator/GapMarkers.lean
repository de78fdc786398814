import MagnumOpus.Lib.SeqTracker
import MagnumOpus.Aggregator.BatchApply

/-! # The gap markers of a live worker

A worker that has merged a snapshot detects gaps tick by tick, while what may be missing is whole
messages.

* **Ticks.** `markers_trace`: a live worker writes as many markers as ticks reveal a gap; trades
  and snapshots that nobody asked for write none.
* **Messages.** `ObMessage` is an order-book message with its range of sequence numbers.  To the
  tracker it is an item that is blank when it lists no changes.  A Bybit message with two levels
  reveals a gap at the second one, whatever came before (`gaps_eq_zero_iff`).
* **Feeds.** `Feed` is a run of messages in exchange order from which a block may be missing.
  `markersExact_iff` says when the markers of the worker are exact for it. -/

namespace MagnumOpus.Aggregator

open EventMachine Reconnect

/-- The marker of a gap that was detected between two ticks. -/
def isMarker : Effect → Bool
  | .streamGap _ _ g => g.cause = .externalDisconnect
  | _ => false

/-- How many such markers are written. -/
def markers (effects : List Effect) : ℕ := effects.countP isMarker

theorem markers_append (o o' : List Effect) : markers (o ++ o') = markers o + markers o' :=
  List.countP_append

/-- The order-book tick that an event hands over. -/
def orderBookTick (e : Event) : Option Tick :=
  match e.input with
  | .tick t => if t.type = .trade then none else some t
  | _ => none

/-- The events hand the order-book ticks `ts` to the worker; there may be trades and snapshots
between them, but no handler panics and the loop goes on. -/
structure HandsOver (es : List Event) (ts : List Tick) : Prop where
  ticks : es.filterMap orderBookTick = ts
  calm : ∀ e ∈ es, e.panicAt = none ∧ e.input ≠ .done

namespace Worker

/-- How many of the ticks reveal a gap when their turn comes. -/
def gaps : Worker → List Tick → ℕ
  | _, [] => 0
  | w, t :: ts => (if w.Reveals t then 1 else 0) + gaps (w.afterUpdate t) ts

/-- The worker after the ticks. -/
def afterUpdates (w : Worker) (ts : List Tick) : Worker := ts.foldl afterUpdate w

/-- The first tick reveals a gap, and no other does. -/
def FirstReveals (w : Worker) (ts : List Tick) : Prop :=
  ∃ t ts', ts = t :: ts' ∧ w.Reveals t ∧ (w.afterUpdate t).gaps ts' = 0

/-! ### One event -/

/-- An event that hands over no order-book tick leaves a live worker as it is. -/
theorem step_other {w : Worker} {e : Event} (h : w.IsLive)
    (hcalm : e.panicAt = none ∧ e.input ≠ .done) (he : orderBookTick e = none) :
    (step w e).1 = w ∧ markers (step w e).2 = 0 := by
  unfold orderBookTick at he
  cases hi : e.input with
  | done => exact absurd hi hcalm.2
  | snapshot r n =>
      rw [step_snapshot_unexpected h.running hcalm.1 hi h.not_buffering]
      exact ⟨rfl, rfl⟩
  | tick t =>
      rw [hi] at he
      by_cases ht : t.type = .trade
      · rw [step_trade h.running hcalm.1 hi ht, if_pos h.not_buffering]
        exact ⟨rfl, rfl⟩
      · simp [ht] at he

/-- An order-book tick writes one marker when it reveals a gap. -/
theorem step_tick {w : Worker} {e : Event} {t : Tick} (h : w.IsLive)
    (hcalm : e.panicAt = none ∧ e.input ≠ .done) (he : orderBookTick e = some t)
    (ht : t.type = .update) :
    (step w e).1 = w.afterUpdate t ∧
      markers (step w e).2 = if w.Reveals t then 1 else 0 := by
  have hi : e.input = .tick t := by
    unfold orderBookTick at he
    cases hi : e.input with
    | done => simp [hi] at he
    | snapshot r n => simp [hi] at he
    | tick t' =>
        simp only [hi] at he
        split at he
        · cases he
        · rw [Option.some.inj he]
  rw [step_update h.running hcalm.1 hi ht h.not_buffering]
  refine ⟨rfl, ?_⟩
  have hpub : markers (w.publishEffects t) = 0 := by
    unfold publishEffects
    split <;> rfl
  have hgap : markers (w.gapEffects t e.now) = if w.Reveals t then 1 else 0 := by
    unfold gapEffects
    rw [tickGap_eq]
    by_cases hr : w.Reveals t
    · rw [if_pos hr, if_pos hr]
      rfl
    · rw [if_neg hr, if_neg hr]
      rfl
  rw [markers_append, hgap]
  have hrest : markers (.applyDelta t.delta :: .streamWrite t :: .ilpWrite t ::
      w.publishEffects t) = 0 := hpub
  rw [hrest, Nat.add_zero]

/-- **A live worker writes as many markers as ticks reveal a gap.** -/
theorem markers_trace : ∀ {es : List Event} {ts : List Tick} {w : Worker}, w.IsLive →
    HandsOver es ts → (∀ t ∈ ts, t.type = .update) →
      final step w es = w.afterUpdates ts ∧ (w.afterUpdates ts).IsLive ∧
        markers (trace step w es) = w.gaps ts
  | [], ts, w, h, hes, _ => by
      obtain rfl := hes.ticks
      exact ⟨rfl, h, rfl⟩
  | e :: es, ts, w, h, hes, htypes => by
      have hcalm := hes.calm e List.mem_cons_self
      have hrest : ∀ e' ∈ es, e'.panicAt = none ∧ e'.input ≠ .done :=
        fun e' he' => hes.calm e' (List.mem_cons_of_mem e he')
      have hticks := hes.ticks
      rw [final_cons, trace_cons, markers_append]
      cases he : orderBookTick e with
      | none =>
          rw [List.filterMap_cons_none he] at hticks
          obtain ⟨hsame, hnone⟩ := step_other h hcalm he
          rw [hsame, hnone, Nat.zero_add]
          exact markers_trace h ⟨hticks, hrest⟩ htypes
      | some t =>
          rw [List.filterMap_cons_some he] at hticks
          subst hticks
          obtain ⟨hstep, hmark⟩ := step_tick h hcalm he (htypes t List.mem_cons_self)
          rw [hstep, hmark]
          obtain ⟨hfinal, hlive, hgaps⟩ := markers_trace (h.afterUpdate t) ⟨rfl, hrest⟩
            (fun t' ht' => htypes t' (List.mem_cons_of_mem t ht'))
          exact ⟨hfinal, hlive, by rw [hgaps]; rfl⟩

/-- Over the events of a message one marker is written, at the first order-book tick. -/
structure OneMarkerAtFirst (w : Worker) (es : List Event) : Prop where
  once : markers (trace step w es) = 1
  first : ∃ before e after, es = before ++ e :: after ∧ (∀ e' ∈ before, orderBookTick e' = none) ∧
    (orderBookTick e).isSome ∧ markers (step (final step w before) e).2 = 1

/-- One marker is written at the first tick exactly when it alone reveals a gap. -/
theorem oneMarkerAtFirst_iff {es : List Event} {ts : List Tick} {w : Worker} (h : w.IsLive)
    (hes : HandsOver es ts) (htypes : ∀ t ∈ ts, t.type = .update) :
    w.OneMarkerAtFirst es ↔ w.FirstReveals ts := by
  have hcount := (markers_trace h hes htypes).2.2
  -- The events before the first tick change nothing, so that tick finds the worker as it was.
  have hfirst : ∀ {before e after} {t : Tick}, es = before ++ e :: after →
      (∀ e' ∈ before, orderBookTick e' = none) → orderBookTick e = some t →
        t ∈ ts ∧ markers (step (final step w before) e).2 = if w.Reveals t then 1 else 0 := by
    intro before e after t hsplit hbefore he
    have hmem : t ∈ ts := by
      rw [← hes.ticks, hsplit]
      exact List.mem_filterMap.mpr ⟨e, by simp, he⟩
    have hcalm : ∀ e' ∈ before ++ [e], e'.panicAt = none ∧ e'.input ≠ .done := by
      intro e' he'
      refine hes.calm e' (hsplit ▸ ?_)
      rw [List.mem_append] at he' ⊢
      exact he'.imp id fun hx => List.mem_cons.mpr (.inl (List.mem_singleton.mp hx))
    have hnone : before.filterMap orderBookTick = [] := List.filterMap_eq_nil_iff.mpr hbefore
    have hsame : final step w before = w :=
      (markers_trace h ⟨hnone, fun e' he' => hcalm e' (List.mem_append_left _ he')⟩ (by simp)).1
    rw [hsame]
    exact ⟨hmem, (step_tick h (hcalm e (by simp)) he (htypes t hmem)).2⟩
  constructor
  · rintro ⟨honce, before, e, after, hsplit, hbefore, hsome, hmark⟩
    obtain ⟨t, he⟩ := Option.isSome_iff_exists.mp hsome
    obtain ⟨-, hone⟩ := hfirst hsplit hbefore he
    have hreveals : w.Reveals t := by
      by_contra hn
      rw [hone, if_neg hn] at hmark
      cases hmark
    have hts : ts = t :: after.filterMap orderBookTick := by
      rw [← hes.ticks, hsplit, List.filterMap_append, List.filterMap_eq_nil_iff.mpr hbefore,
        List.filterMap_cons_some he, List.nil_append]
    refine ⟨t, _, hts, hreveals, ?_⟩
    rw [hcount, hts, gaps, if_pos hreveals] at honce
    omega
  · rintro ⟨t, ts', hts, hreveals, hrest⟩
    have honce : markers (trace step w es) = 1 := by
      rw [hcount, hts, gaps, if_pos hreveals, hrest]
    obtain ⟨before, e, after, hsplit, hbefore, he, -⟩ :=
      List.filterMap_eq_cons_iff.mp (hes.ticks.trans hts)
    refine ⟨honce, before, e, after, hsplit, hbefore, by rw [he]; rfl, ?_⟩
    rw [(hfirst hsplit hbefore he).2, if_pos hreveals]

end Worker

/-! ### One message -/

/-- An order-book message with its level changes and the numbers it covers. -/
structure ObMessage where
  msg : MarketMessage
  changes : List Delta
  first : UInt64
  last : UInt64
  parsed : msg.levelChanges = some changes
  covers : msg.seqRange = some (first, last)

namespace ObMessage

/-- What the message is to a sequence tracker. -/
def item (m : ObMessage) : SeqTracker.Item := ⟨m.first.toNat, m.last.toNat, m.changes.isEmpty⟩

/-- The message does not give a Bybit worker two levels at one number. -/
def SingleLevel (m : ObMessage) : Prop := m.msg.isBybit = true → m.changes.length ≤ 1

theorem item_blank {m : ObMessage} : m.item.blank = false ↔ m.changes ≠ [] := by
  simp [item]

theorem next_item (m : ObMessage) (n : ℕ) :
    SeqTracker.next n m.item = if m.changes = [] then n else m.last.toNat := by
  simp [SeqTracker.next, item]

theorem type_of_mem_ticks (m : ObMessage) {tsLocal : Int64} :
    ∀ t ∈ m.msg.ticks tsLocal, t.type = .update :=
  fun _ ht => MarketMessage.type_of_mem_ticks m.parsed ht

end ObMessage

namespace Worker

/-- The tracker that a worker uses for the messages of its exchange. -/
def tracker (bybit : Bool) (w : Worker) : ℕ :=
  if bybit then w.lastSeq.toNat else w.lastMsgSeqEnd.toNat

/-- A number follows a tracker on 64 bits as it does on the natural numbers, except past the end,
where it would be `0`. -/
theorem eq_add_one_iff {x y : UInt64} (hx : 0 < x.toNat) : x = y + 1 ↔ x.toNat = y.toNat + 1 := by
  have hlt := x.toNat_lt
  have hylt := y.toNat_lt
  rw [← UInt64.toNat_inj, UInt64.toNat_add, UInt64.toNat_one]
  omega

theorem reveals_kucoin {w : Worker} {t : Tick} (hend : t.msgSeqEnd ≠ 0)
    (hstart : 0 < t.msgSeqStart.toNat) :
    w.Reveals t ↔
      0 < w.lastMsgSeqEnd.toNat ∧ t.msgSeqStart.toNat ≠ w.lastMsgSeqEnd.toNat + 1 := by
  rw [Reveals, if_pos hend, UInt64.lt_iff_toNat_lt, UInt64.lt_iff_toNat_lt, ne_eq,
    eq_add_one_iff hstart]
  exact and_iff_right hstart

theorem reveals_bybit {w : Worker} {t : Tick} (hend : t.msgSeqEnd = 0) (hseq : 0 < t.seq.toNat) :
    w.Reveals t ↔ 0 < w.lastSeq.toNat ∧ t.seq.toNat ≠ w.lastSeq.toNat + 1 := by
  rw [Reveals, if_neg (not_not.mpr hend), UInt64.lt_iff_toNat_lt, ne_eq, eq_add_one_iff hseq]
  exact Iff.rfl

theorem not_reveals_later {w : Worker} {t : Tick} (hend : t.msgSeqEnd ≠ 0)
    (hstart : t.msgSeqStart = 0) : ¬ w.Reveals t := by
  rw [Reveals, if_pos hend, hstart]
  exact fun h => UInt64.lt_irrefl 0 h.1

/-- Later deltas of a KuCoin message reveal nothing. -/
theorem gaps_kucoin_later (u : Kucoin.ParsedUpdate) (tsLocal : Int64) (hend : u.msgSeqEnd ≠ 0) :
    ∀ (ds : List Delta) (w : Worker), w.lastMsgSeqEnd = u.msgSeqEnd →
      w.gaps (ds.map (Kucoin.deltaTick u tsLocal 0)) = 0 ∧
      (w.afterUpdates (ds.map (Kucoin.deltaTick u tsLocal 0))).lastMsgSeqEnd = u.msgSeqEnd
  | [], w, hw => ⟨rfl, hw⟩
  | d :: ds, w, hw => by
      have hnot : ¬ w.Reveals (Kucoin.deltaTick u tsLocal 0 d) := not_reveals_later hend rfl
      have hafter : (w.afterUpdate (Kucoin.deltaTick u tsLocal 0 d)).lastMsgSeqEnd =
          u.msgSeqEnd := by
        simp [afterUpdate, track, Kucoin.deltaTick, hend]
      obtain ⟨hgaps, hlast⟩ := gaps_kucoin_later u tsLocal hend ds _ hafter
      exact ⟨by rw [List.map_cons, gaps, if_neg hnot, hgaps], hlast⟩

theorem gaps_cons_eq_zero {w : Worker} {t : Tick} {ts : List Tick} :
    w.gaps (t :: ts) = 0 ↔ ¬ w.Reveals t ∧ (w.afterUpdate t).gaps ts = 0 := by
  rw [gaps]
  by_cases h : w.Reveals t <;> simp [h]

theorem firstReveals_cons {w : Worker} {t : Tick} {ts : List Tick} :
    w.FirstReveals (t :: ts) ↔ w.Reveals t ∧ (w.afterUpdate t).gaps ts = 0 := by
  constructor
  · rintro ⟨t', ts', heq, hreveals, hrest⟩
    obtain ⟨rfl, rfl⟩ := List.cons.inj heq
    exact ⟨hreveals, hrest⟩
  · rintro ⟨hreveals, hrest⟩
    exact ⟨t, ts, rfl, hreveals, hrest⟩

/-- The ticks of a KuCoin message reveal a gap at the first one, if at all. -/
theorem kucoin_spec (u : Kucoin.ParsedUpdate) (tsLocal : Int64) (w : Worker)
    (hstart : 0 < u.msgSeqStart.toNat) (hend : u.msgSeqEnd ≠ 0) :
    let ts := Kucoin.updateTicks u tsLocal
    let alarm := u.deltas ≠ [] ∧
      0 < w.lastMsgSeqEnd.toNat ∧ u.msgSeqStart.toNat ≠ w.lastMsgSeqEnd.toNat + 1
    (w.gaps ts = 0 ↔ ¬ alarm) ∧ (w.FirstReveals ts ↔ alarm) ∧
      (w.afterUpdates ts).lastMsgSeqEnd =
        if u.deltas = [] then w.lastMsgSeqEnd else u.msgSeqEnd := by
  intro ts alarm
  cases hds : u.deltas with
  | nil =>
      have hts : ts = [] := by simp [ts, Kucoin.updateTicks, hds]
      rw [hts]
      refine ⟨?_, ?_, rfl⟩
      · simp [gaps, alarm, hds]
      · simp [FirstReveals, alarm, hds]
  | cons d ds =>
      have hts : ts = Kucoin.deltaTick u tsLocal u.msgSeqStart d ::
          ds.map (Kucoin.deltaTick u tsLocal 0) := by
        simp [ts, Kucoin.updateTicks, hds]
      have halarm : alarm ↔ w.Reveals (Kucoin.deltaTick u tsLocal u.msgSeqStart d) := by
        rw [reveals_kucoin hend hstart]
        exact and_iff_right (by simp [hds])
      have hafter : (w.afterUpdate (Kucoin.deltaTick u tsLocal u.msgSeqStart d)).lastMsgSeqEnd =
          u.msgSeqEnd := by
        simp [afterUpdate, track, Kucoin.deltaTick, hend]
      obtain ⟨hgaps, hlast⟩ := gaps_kucoin_later u tsLocal hend ds _ hafter
      rw [hts, gaps_cons_eq_zero, firstReveals_cons, halarm]
      exact ⟨and_iff_left hgaps, and_iff_left hgaps, hlast⟩

/-- The ticks of a Bybit message reveal a gap at the first one, if at all, and at every later
one. -/
theorem bybit_spec (u : Bybit.ParsedUpdate) (tsLocal : Int64) (w : Worker) {n : UInt64}
    (hn : 0 < n.toNat) (hall : ∀ d ∈ u.deltas, d.seq = n) :
    let ts := Bybit.updateTicks u tsLocal
    let alarm := u.deltas ≠ [] ∧ 0 < w.lastSeq.toNat ∧ n.toNat ≠ w.lastSeq.toNat + 1
    (w.gaps ts = 0 ↔ ¬ alarm ∧ u.deltas.length ≤ 1) ∧
      (w.FirstReveals ts ↔ alarm ∧ u.deltas.length ≤ 1) ∧
      (w.afterUpdates ts).lastSeq = if u.deltas = [] then w.lastSeq else n := by
  intro ts alarm
  have hlast : ∀ (v : Worker) (d : Delta),
      (v.afterUpdate (Bybit.deltaTick u tsLocal d)).lastSeq = d.seq := by
    intro v d
    simp [afterUpdate, track, Bybit.deltaTick]
  have hreveals : ∀ (v : Worker) (d : Delta), d.seq = n →
      (v.Reveals (Bybit.deltaTick u tsLocal d) ↔
        0 < v.lastSeq.toNat ∧ n.toNat ≠ v.lastSeq.toNat + 1) := by
    rintro v d rfl
    exact reveals_bybit rfl hn
  have hfinal : ∀ (ds : List Delta) (v : Worker), (∀ d ∈ ds, d.seq = n) → v.lastSeq = n →
      (v.afterUpdates (ds.map (Bybit.deltaTick u tsLocal))).lastSeq = n := by
    intro ds
    induction ds with
    | nil => exact fun v _ hv => hv
    | cons d ds ih =>
        intro v hds _
        exact ih _ (fun d' hd' => hds d' (List.mem_cons_of_mem d hd'))
          ((hlast v d).trans (hds d List.mem_cons_self))
  cases hds : u.deltas with
  | nil =>
      have hts : ts = [] := by simp [ts, Bybit.updateTicks, hds]
      rw [hts]
      refine ⟨?_, ?_, rfl⟩
      · simp [gaps, alarm, hds]
      · simp [FirstReveals, alarm, hds]
  | cons d ds =>
      have hts : ts = Bybit.deltaTick u tsLocal d :: ds.map (Bybit.deltaTick u tsLocal) := by
        simp [ts, Bybit.updateTicks, hds]
      have hd : d.seq = n := hall d (by simp [hds])
      have hds' : ∀ d' ∈ ds, d'.seq = n := fun d' hd' => hall d' (by simp [hds, hd'])
      have halarm : alarm ↔ w.Reveals (Bybit.deltaTick u tsLocal d) := by
        rw [hreveals w d hd]
        exact and_iff_right (by simp [hds])
      have hafter := (hlast w d).trans hd
      -- A second tick carries the number that the tracker is at.
      have hlater : (w.afterUpdate (Bybit.deltaTick u tsLocal d)).gaps
          (ds.map (Bybit.deltaTick u tsLocal)) = 0 ↔ (d :: ds).length ≤ 1 := by
        cases ds with
        | nil => simp [gaps]
        | cons d' ds =>
            have hsecond : (w.afterUpdate (Bybit.deltaTick u tsLocal d)).Reveals
                (Bybit.deltaTick u tsLocal d') := by
              rw [hreveals _ d' (hds' d' List.mem_cons_self), hafter]
              exact ⟨hn, by omega⟩
            rw [List.map_cons, gaps_cons_eq_zero]
            simp [hsecond]
      rw [hts, gaps_cons_eq_zero, firstReveals_cons, halarm, hlater]
      exact ⟨Iff.rfl, Iff.rfl, hfinal ds _ hds' hafter⟩

/-- **What the ticks of a message do to a worker** depends on the message as an item of its
exchange and, for Bybit, on the number of its levels. -/
theorem message_spec {w : Worker} {m : ObMessage} (hpos : 0 < m.first.toNat)
    (hle : m.first.toNat ≤ m.last.toNat) (tsLocal : Int64) :
    let ts := m.msg.ticks tsLocal
    let n := tracker m.msg.isBybit w
    (w.gaps ts = 0 ↔ ¬ SeqTracker.Alarm n m.item ∧ m.SingleLevel) ∧
    (w.FirstReveals ts ↔ SeqTracker.Alarm n m.item ∧ m.SingleLevel) ∧
    tracker m.msg.isBybit (w.afterUpdates ts) = SeqTracker.next n m.item := by
  intro ts n
  cases hmsg : m.msg with
  | kucoin msg =>
      obtain ⟨u, hds, hrange, hticks⟩ := MarketMessage.kucoin_of_levelChanges (hmsg ▸ m.parsed)
      obtain ⟨hfirst, hlast⟩ :=
        Prod.mk.inj (Option.some.inj (hrange.symm.trans (hmsg ▸ m.covers)))
      have hend : u.msgSeqEnd ≠ 0 := by
        intro h0
        rw [← hlast, h0] at hle
        exact absurd hpos (by simpa using hle)
      have hsingle : m.SingleLevel := by
        intro hb
        rw [hmsg] at hb
        cases hb
      have hn : n = w.lastMsgSeqEnd.toNat := by simp [n, tracker, hmsg, MarketMessage.isBybit]
      obtain ⟨hgaps, hreveals, hafter⟩ := kucoin_spec u tsLocal w (hfirst ▸ hpos) hend
      have halarm : SeqTracker.Alarm n m.item ↔ u.deltas ≠ [] ∧
          0 < w.lastMsgSeqEnd.toNat ∧ u.msgSeqStart.toNat ≠ w.lastMsgSeqEnd.toNat + 1 := by
        rw [SeqTracker.Alarm, ObMessage.item_blank, hn, hds, hfirst]
        rfl
      have hts : ts = Kucoin.updateTicks u tsLocal := by
        simp only [ts, hmsg, hticks]
      rw [hts, hgaps, hreveals, halarm]
      refine ⟨(and_iff_left hsingle).symm, (and_iff_left hsingle).symm, ?_⟩
      rw [ObMessage.next_item, hn, ← hlast, ← hds]
      simp only [tracker, MarketMessage.isBybit, Bool.false_eq_true, if_false, hafter]
      split <;> rfl
  | bybit frame =>
      obtain ⟨u, k, hds, hrange, hall, hticks⟩ :=
        MarketMessage.bybit_of_levelChanges (hmsg ▸ m.parsed)
      obtain ⟨hfirst, hlast⟩ :=
        Prod.mk.inj (Option.some.inj (hrange.symm.trans (hmsg ▸ m.covers)))
      have hsingle : m.SingleLevel ↔ u.deltas.length ≤ 1 := by
        simp [ObMessage.SingleLevel, hmsg, MarketMessage.isBybit, hds]
      have hn : n = w.lastSeq.toNat := by simp [n, tracker, hmsg, MarketMessage.isBybit]
      obtain ⟨hgaps, hreveals, hafter⟩ :=
        bybit_spec u tsLocal w (hfirst ▸ hpos) fun d hd => (hall d (hds ▸ hd)).1
      have halarm : SeqTracker.Alarm n m.item ↔ u.deltas ≠ [] ∧
          0 < w.lastSeq.toNat ∧ k.toNat ≠ w.lastSeq.toNat + 1 := by
        rw [SeqTracker.Alarm, ObMessage.item_blank, hn, hds, hfirst]
        rfl
      have hts : ts = Bybit.updateTicks u tsLocal := by
        simp only [ts, hmsg, hticks]
      rw [hts, hgaps, hreveals, halarm, hsingle]
      refine ⟨Iff.rfl, Iff.rfl, ?_⟩
      rw [ObMessage.next_item, hn, ← hlast, ← hds]
      simp only [tracker, MarketMessage.isBybit, if_true, hafter]
      split <;> rfl

end Worker

/-! ### A feed -/

/-- A message with the events that hand it over to the worker. -/
structure Arrival where
  message : ObMessage
  tsLocal : Int64
  events : List Event
  handsOver : HandsOver events (message.msg.ticks tsLocal)

/-- The order-book messages of one exchange from a snapshot at `s` on: `pre` and then `post` arrive,
and the messages `gap` between them are missing.  The first message starts no later than right
after the snapshot, every other one where the one before it ended. -/
structure Feed (s : UInt64) where
  bybit : Bool
  pre : List Arrival
  gap : List ObMessage
  post : List Arrival
  start : ℕ
  start_pos : 0 < start
  start_le : start ≤ s.toNat + 1
  contiguous : SeqTracker.Contiguous start
    ((pre.map fun a => a.message.item) ++ gap.map ObMessage.item ++
      post.map fun a => a.message.item)
  exchange : ∀ a ∈ pre ++ post, a.message.msg.isBybit = bybit

namespace Worker

/-- No message writes a marker. -/
def NoMarkers : Worker → List Arrival → Prop
  | _, [] => True
  | w, a :: as => markers (trace step w a.events) = 0 ∧ NoMarkers (final step w a.events) as

/-- The worker after the arrivals. -/
def afterArrivals (w : Worker) (as : List Arrival) : Worker :=
  as.foldl (fun w a => final step w a.events) w

/-- The markers are exact for a feed: without a missing block there are none; with one there is
exactly one, which the first message after the block writes as it comes in. -/
def MarkersExact (w : Worker) (pre : List Arrival) (gap : List ObMessage) (post : List Arrival) :
    Prop :=
  w.NoMarkers pre ∧
    match post with
    | [] => True
    | a :: as =>
        if gap = [] then (w.afterArrivals pre).NoMarkers (a :: as)
        else (w.afterArrivals pre).OneMarkerAtFirst a.events ∧
          (final step (w.afterArrivals pre) a.events).NoMarkers as

variable {b : Bool}

/-- One arrival: the markers it writes, and the tracker after it. -/
theorem arrival_spec {w : Worker} {a : Arrival} (h : w.IsLive) (hb : a.message.msg.isBybit = b)
    (hpos : 0 < a.message.item.first) (hle : a.message.item.first ≤ a.message.item.last) :
    (markers (trace step w a.events) = 0 ↔
      ¬ SeqTracker.Alarm (tracker b w) a.message.item ∧ a.message.SingleLevel) ∧
    (w.OneMarkerAtFirst a.events ↔
      SeqTracker.Alarm (tracker b w) a.message.item ∧ a.message.SingleLevel) ∧
    (final step w a.events).IsLive ∧
    tracker b (final step w a.events) = SeqTracker.next (tracker b w) a.message.item := by
  subst hb
  have htypes : ∀ t ∈ a.message.msg.ticks a.tsLocal, t.type = .update := a.message.type_of_mem_ticks
  obtain ⟨hfinal, hlive, hcount⟩ := markers_trace h a.handsOver htypes
  obtain ⟨hgaps, hreveals, hnext⟩ := @message_spec w a.message hpos hle a.tsLocal
  refine ⟨by rw [hcount, hgaps], ?_, by rwa [hfinal], by rw [hfinal, hnext]⟩
  rw [oneMarkerAtFirst_iff h a.handsOver htypes, hreveals]

/-- A run of arrivals: it writes no marker exactly when its items raise no alarm and no Bybit
message has more than one level. -/
theorem noMarkers_iff : ∀ {as : List Arrival} {w : Worker} {n : ℕ}, w.IsLive → 0 < n →
    SeqTracker.Contiguous n (as.map fun a => a.message.item) →
    (∀ a ∈ as, a.message.msg.isBybit = b) →
      (w.NoMarkers as ↔ SeqTracker.Quiet (tracker b w) (as.map fun a => a.message.item) ∧
        ∀ a ∈ as, a.message.SingleLevel) ∧
      (w.afterArrivals as).IsLive ∧
      tracker b (w.afterArrivals as) =
        SeqTracker.tracked (tracker b w) (as.map fun a => a.message.item)
  | [], w, _, h, _, _, _ => by
      refine ⟨?_, h, rfl⟩
      simp [NoMarkers, SeqTracker.Quiet]
  | a :: as, w, n, h, hn, hcont, hb => by
      obtain ⟨hfirst, hle, hrest⟩ := hcont
      have hpos : 0 < a.message.item.first := hfirst.symm ▸ hn
      obtain ⟨hnone, -, hlive, htrack⟩ := arrival_spec h (hb a List.mem_cons_self) hpos hle
      obtain ⟨hquiet, hlive', htrack'⟩ := noMarkers_iff hlive (Nat.succ_pos _) hrest
        (fun a' ha' => hb a' (List.mem_cons_of_mem a ha'))
      rw [htrack] at hquiet htrack'
      refine ⟨?_, hlive', htrack'⟩
      rw [NoMarkers, hnone, hquiet, List.map_cons, SeqTracker.Quiet, List.forall_mem_cons]
      exact and_and_and_comm

end Worker

/-- When the markers of a feed are exact: no Bybit message that arrives has more than one level,
and as items the missing messages are covered. -/
def Feed.Trackable {s : UInt64} (f : Feed s) : Prop :=
  (∀ a ∈ f.pre ++ f.post, a.message.SingleLevel) ∧
    SeqTracker.Covered s.toNat (f.pre.map fun a => a.message.item) (f.gap.map ObMessage.item)
      (f.post.map fun a => a.message.item)

/-- **After the merge of a snapshot the markers are exact for a feed exactly when it is
trackable.** -/
theorem Worker.markersExact_iff {w : Worker} (hw : w.returned = false) (r : SnapshotResult)
    (f : Feed r.seq) :
    (w.afterMerge r).MarkersExact f.pre f.gap f.post ↔ f.Trackable := by
  have hlive := isLive_afterMerge hw r
  have htracker : tracker f.bybit (w.afterMerge r) = r.seq.toNat := by
    unfold tracker
    split <;> rfl
  have hcovered := SeqTracker.exact_iff_covered (n := r.seq.toNat) f.start_pos f.contiguous
  obtain ⟨hpg, hpost⟩ := SeqTracker.contiguous_append.mp f.contiguous
  obtain ⟨hpre, -⟩ := SeqTracker.contiguous_append.mp hpg
  have hstop := SeqTracker.le_stop hpg
  have hpos := f.start_pos
  obtain ⟨hnone, hlive', htrack⟩ := noMarkers_iff hlive hpos hpre
    (fun a ha => f.exchange a (List.mem_append_left _ ha))
  rw [htracker] at hnone htrack
  rw [Feed.Trackable, ← hcovered]
  unfold MarkersExact SeqTracker.Exact
  rw [hnone]
  have hgap : f.gap = [] ↔ f.gap.map ObMessage.item = [] := List.map_eq_nil_iff.symm
  cases hcase : f.post with
  | nil =>
      simp only [List.map_nil, and_true, List.append_nil]
      exact and_comm
  | cons a as =>
      rw [hcase] at hpost
      have hb : ∀ a' ∈ a :: as, a'.message.msg.isBybit = f.bybit :=
        fun a' ha' => f.exchange a' (List.mem_append_right _ (hcase ▸ ha'))
      simp only [List.map_cons, List.forall_mem_append, hgap]
      by_cases hg : f.gap.map ObMessage.item = []
      · obtain ⟨hnone', -, -⟩ := noMarkers_iff hlive' (by omega) hpost hb
        rw [htrack] at hnone'
        simp only [hg, if_true, hnone', List.map_cons]
        exact and_and_and_comm.trans and_comm
      · obtain ⟨hfirst, hle, hrest⟩ := hpost
        obtain ⟨-, hone, hlive₁, htrack₁⟩ :=
          arrival_spec hlive' (hb a List.mem_cons_self) (lt_of_lt_of_le (by omega) hfirst.ge) hle
        obtain ⟨hnone', -, -⟩ := noMarkers_iff hlive₁ (Nat.succ_pos _) hrest
          (fun a' ha' => hb a' (List.mem_cons_of_mem a ha'))
        rw [htrack₁, htrack] at hnone'
        rw [htrack] at hone
        simp only [hg, if_false, hone, hnone', List.forall_mem_cons]
        constructor
        · rintro ⟨⟨hquiet, hpre⟩, ⟨halarm, ha⟩, hquiet', has⟩
          exact ⟨⟨hpre, ha, has⟩, hquiet, halarm, hquiet'⟩
        · rintro ⟨⟨hpre, ha, has⟩, hquiet, halarm, hquiet'⟩
          exact ⟨⟨hquiet, hpre⟩, ⟨halarm, ha⟩, hquiet', has⟩

/-! ### Three feeds -/

/-- A KuCoin message that covers one number, with one bid or none. -/
def kucoinAt (seq : String) (bids : List String) : MarketMessage :=
  .kucoin { topic := "/market/level2:BTC-USDT",
            data := some (.obj [("sequenceStart", .num seq), ("sequenceEnd", .num seq),
              ("changes", .obj [("bids", .arr (bids.map fun price =>
                .arr [.str price, .str "1", .str seq])), ("asks", .arr [])]),
              ("time", .num "1000")]) }

/-- The change of a KuCoin message with one bid. -/
def bidAt (seq : UInt64) : Delta := ⟨seq, .bid, "100", "1", 1000000000⟩

def seven : ObMessage := ⟨kucoinAt "7" ["100"], [bidAt 7], 7, 7, by decide, by decide⟩

def eightBlank : ObMessage := ⟨kucoinAt "8" [], [], 8, 8, by decide, by decide⟩

def nine : ObMessage := ⟨kucoinAt "9" ["100"], [bidAt 9], 9, 9, by decide, by decide⟩

def twoLevels : ObMessage :=
  ⟨.bidsAtSeven [("100", "1"), ("99", "2")], deltasAtSeven [("100", "1"), ("99", "2")], 7, 7,
    by decide, by decide⟩

theorem handsOver_deliver (m : ObMessage) :
    HandsOver (deliver (m.msg.ticks 0)) (m.msg.ticks 0) := by
  have htypes : ∀ t ∈ m.msg.ticks 0, t.type = .update := m.type_of_mem_ticks
  refine ⟨?_, fun e he => ?_⟩
  · rw [deliver, List.filterMap_map]
    refine (List.filterMap_congr fun t ht => ?_).trans List.filterMap_some
    simp [orderBookTick, htypes t ht]
  · obtain ⟨t, -, rfl⟩ := List.mem_map.mp he
    exact ⟨rfl, by simp⟩

/-- A message that comes in as it is. -/
def arrival (m : ObMessage) : Arrival := ⟨m, 0, deliver (m.msg.ticks 0), handsOver_deliver m⟩

/-- The message between two others is missing. -/
def oneMissing : Feed 6 where
  bybit := false
  pre := [arrival seven]
  gap := [eightBlank]
  post := [arrival nine]
  start := 7
  start_pos := by decide
  start_le := by decide
  contiguous := by simp [SeqTracker.Contiguous, arrival, ObMessage.item, seven, eightBlank, nine]
  exchange := by decide

/-- Nothing is missing, but the message between two others lists no changes. -/
def oneBlank : Feed 6 where
  bybit := false
  pre := [arrival seven, arrival eightBlank, arrival nine]
  gap := []
  post := []
  start := 7
  start_pos := by decide
  start_le := by decide
  contiguous := by simp [SeqTracker.Contiguous, arrival, ObMessage.item, seven, eightBlank, nine]
  exchange := by decide

/-- Nothing is missing, but a message has two levels at one number. -/
def oneDouble : Feed 6 where
  bybit := true
  pre := [arrival twoLevels]
  gap := []
  post := []
  start := 7
  start_pos := by decide
  start_le := by decide
  contiguous := by simp [SeqTracker.Contiguous, arrival, ObMessage.item, twoLevels]
  exchange := by decide

/-- The missing message is noticed where it should be. -/
theorem Worker.oneMissing_exact :
    ((Worker.new "kucoin" "BTC-USDT" false).afterMerge ⟨6, ∅, ∅⟩).MarkersExact
      oneMissing.pre oneMissing.gap oneMissing.post := by
  have hsingle : ∀ a ∈ oneMissing.pre ++ oneMissing.post, a.message.SingleLevel :=
    fun a ha hb => absurd (hb.symm.trans (oneMissing.exchange a ha)) (by decide +kernel)
  refine (markersExact_iff rfl ⟨6, ∅, ∅⟩ oneMissing).mpr ⟨hsingle, ?_⟩
  simp [SeqTracker.Covered, SeqTracker.Steady, SeqTracker.BlanksLast, oneMissing, arrival,
    ObMessage.item, seven, eightBlank, nine]

/-- Feeds of which nothing is missing, and that write a marker all the same. -/
theorem Worker.spurious_markers :
    (¬ ((Worker.new "kucoin" "BTC-USDT" false).afterMerge ⟨6, ∅, ∅⟩).MarkersExact
      oneBlank.pre oneBlank.gap oneBlank.post) ∧
    (¬ ((Worker.new "bybit" "BTC-USDT" false).afterMerge ⟨6, ∅, ∅⟩).MarkersExact
      oneDouble.pre oneDouble.gap oneDouble.post) := by
  constructor
  · intro h
    have hnine := h.1.2.2.1
    revert hnine
    decide +kernel
  · intro h
    have hdouble := h.1.1
    revert hdouble
    decide +kernel

end MagnumOpus.Aggregator
