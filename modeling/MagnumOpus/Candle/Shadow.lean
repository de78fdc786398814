import MagnumOpus.Candle.FullConsumer
import MagnumOpus.Candle.GapIsolation
import MagnumOpus.Candle.Restart

/-! # The shadow mode

Before a new slot is promoted its consumer reads the stream without a group and warms up
(`handleShadowMessage` in `consumer.go`): it applies what it reads to its book and to its
accumulators, and neither acknowledges an entry nor writes a bar.

* **Warmth.** `SameWarmth` relates two consumers with the same book and the same accumulators.
  An entry that the active consumer hands on keeps it (`dispatched_handleMessage`).
* **Snapshots.** Only the active consumer flushes what the bar has before a snapshot; starting over
  forgets all that the flush has changed (`reset_flush`). -/

namespace MagnumOpus.Candle

open EventMachine

namespace FullAccWriter

variable {F : Features} {depth : OrderBook → DepthSnapshot}

theorem reset_close (a : FullAccumulator) (book : OrderBook) :
    (close depth a book).reset = a.reset := by
  have hseed : ∀ b : BarAccumulator, b.seedFromLastKnown.reset = b.reset := by
    intro b
    unfold BarAccumulator.seedFromLastKnown
    split <;> rfl
  unfold close
  split
  · exact congrArg (FullAccumulator.mk · {} {} {}) (hseed a.toBarAccumulator)
  · exact congrArg (FullAccumulator.mk · {} {} {}) (hseed a.toBarAccumulator)

/-- **What a flush of a partial bar changes does not outlast starting over.** -/
theorem reset_flush (aw : FullAccWriter) (book : OrderBook) (nowMs : Int64) (accepted : Bool) :
    (aw.flush F depth book true nowMs accepted).1.reset = aw.reset := by
  have hacc : (close depth aw.acc book).reset = aw.acc.reset := reset_close aw.acc book
  have hbarReset : ∀ a : FullAccumulator, a.barReset.reset = a.reset := fun _ => rfl
  unfold flush
  cases accepted with
  | false =>
      show { aw with acc := close depth aw.acc book }.reset = aw.reset
      unfold reset
      dsimp only
      rw [hacc]
  | true =>
      show { aw with acc := (close depth aw.acc book).barReset, openDepthSet := false }.reset =
        aw.reset
      unfold reset
      dsimp only
      rw [hbarReset, hacc]

end FullAccWriter

namespace FullConsumer

variable (N : Numerics) (F : Features) (bestQuote : OrderBook → BestQuote)
  (depth : OrderBook → DepthSnapshot)

def handleShadowMessage (c : FullConsumer) (m : Message) : FullConsumer :=
  let read := { c with lastShadowID := m.id, xreadCursor := m.id }
  if m.isZeroVolume then read
  else match parseMessage m.fields with
    | .tick t => read.applyTick N bestQuote depth t
    | .gap g => { read with aw := read.aw.incrementGap, book := read.book.applyGap g }
    | .snapshot s => { read with aw := read.aw.reset, book := (read.book.applySnapshot s).1 }
    | .unknown => read

/-- A gap is handed on when it has not been counted before and its calls succeed. -/
def takesGap (c : FullConsumer) (m : Message) (calls : Calls) : Bool :=
  match parseMessage m.fields with
  | .gap g => calls.zscore ∧ c.core.isGapDup g = false ∧ calls.zadd ∧ calls.zremrangebyrank
  | _ => true

/-- `handleMessage` hands the entry on to the book and to the accumulators. -/
def dispatches (c : FullConsumer) (m : Message) (calls : Calls) : Bool :=
  m.id ∉ c.seenIDs ∧ (m.isZeroVolume ∨ calls.xack ∧ c.takesGap m calls)

/-- The gap is left out, as one with the same key has been counted. -/
def dropsGap (c : FullConsumer) (m : Message) (calls : Calls) : Bool :=
  match parseMessage m.fields with
  | .gap g => c.core.isGapDup g ∧ calls.xack ∧ calls.zscore
  | _ => false

/-- The same book and the same accumulators. -/
structure SameWarmth (c s : FullConsumer) : Prop where
  book : c.book = s.book
  aw : c.aw = s.aw

variable {N F bestQuote depth} {c s : FullConsumer}

theorem SameWarmth.refl (c : FullConsumer) : SameWarmth c c := ⟨rfl, rfl⟩

theorem SameWarmth.trans {c' : FullConsumer} (h : SameWarmth c s) (h' : SameWarmth s c') :
    SameWarmth c c' := ⟨h.book.trans h'.book, h.aw.trans h'.aw⟩

theorem SameWarmth.applyTick (h : SameWarmth c s) (t : Tick) :
    SameWarmth (c.applyTick N bestQuote depth t) (s.applyTick N bestQuote depth t) := by
  unfold FullConsumer.applyTick
  rw [h.book, h.aw]
  exact ⟨rfl, rfl⟩

theorem handleMessage_eq (m : Message) (calls : Calls) (nowMs : Int64) :
    c.handleMessage N F bestQuote depth m calls nowMs =
      if m.id ∈ c.seenIDs then (c, none)
      else
        let seen := { c with seenIDs := m.id :: c.seenIDs }
        if m.isZeroVolume then (seen, none)
        else if calls.xack = false then ({ c with exited := true }, none)
        else match parseMessage m.fields with
          | .tick t => (seen.handleTick N bestQuote depth t, none)
          | .gap g => (seen.handleGap g calls nowMs, none)
          | .snapshot s => seen.handleSnapshot F depth s calls nowMs
          | .unknown => (seen, none) := rfl

theorem SameWarmth.handleShadowMessage (h : SameWarmth c s) (m : Message) :
    SameWarmth (c.handleShadowMessage N bestQuote depth m)
      (s.handleShadowMessage N bestQuote depth m) := by
  unfold FullConsumer.handleShadowMessage
  dsimp only
  cases m.isZeroVolume with
  | true => exact ⟨h.book, h.aw⟩
  | false =>
      rw [if_neg Bool.false_ne_true, if_neg Bool.false_ne_true]
      have hread : SameWarmth { c with lastShadowID := m.id, xreadCursor := m.id }
          { s with lastShadowID := m.id, xreadCursor := m.id } := ⟨h.book, h.aw⟩
      cases parseMessage m.fields with
      | tick t => exact hread.applyTick t
      | gap g =>
          dsimp only
          rw [h.book, h.aw]
          exact ⟨rfl, rfl⟩
      | snapshot sn =>
          dsimp only
          rw [h.book, h.aw]
          exact ⟨rfl, rfl⟩
      | unknown => exact hread

theorem SameWarmth.handleBarClose (h : SameWarmth c s) (calls : Calls) (nowMs : Int64) :
    SameWarmth (c.handleBarClose F depth calls nowMs).1
      (s.handleBarClose F depth calls nowMs).1 := by
  simp only [FullConsumer.handleBarClose]
  rw [h.book, h.aw]
  exact ⟨rfl, rfl⟩

theorem book_handleShadowMessage (m : Message) :
    (c.handleShadowMessage N bestQuote depth m).book =
      (c.book.applyMessage (parseMessage m.fields)).1 := by
  unfold FullConsumer.handleShadowMessage
  dsimp only
  cases hzero : m.isZeroVolume with
  | true =>
      rw [if_pos rfl]
      unfold Message.isZeroVolume at hzero
      cases hparsed : parseMessage m.fields with
      | tick t =>
          rw [hparsed] at hzero
          obtain ⟨hlevel, -⟩ := of_decide_eq_true hzero
          rw [OrderBook.applyMessage, OrderBook.applyTick, if_pos hlevel]
      | gap g => exact absurd (by rw [hparsed] at hzero; exact hzero) Bool.false_ne_true
      | snapshot sn => exact absurd (by rw [hparsed] at hzero; exact hzero) Bool.false_ne_true
      | unknown => rfl
  | false =>
      rw [if_neg Bool.false_ne_true]
      cases parseMessage m.fields <;> rfl

theorem xreadCursor_handleShadowMessage (m : Message) :
    (c.handleShadowMessage N bestQuote depth m).xreadCursor = m.id := by
  unfold FullConsumer.handleShadowMessage
  dsimp only
  split
  · rfl
  · cases parseMessage m.fields <;> rfl

/-- What an entry that is handed on leaves; `s'` is another consumer that has applied it. -/
structure Dispatched (c : FullConsumer) (m : Message) (c' s' : FullConsumer) : Prop where
  warmth : SameWarmth c' s'
  seenIDs : c'.seenIDs = m.id :: c.seenIDs
  exited : c'.exited = c.exited

/-- What an entry that is not handed on leaves. -/
structure Passed (c : FullConsumer) (m : Message) (calls : Calls) (c' : FullConsumer) : Prop where
  warmth : SameWarmth c' c
  seen : m.id ∈ c.seenIDs → c' = c
  unacked : m.id ∉ c.seenIDs → calls.xack = false → c'.seenIDs = c.seenIDs
  ended : m.id ∉ c.seenIDs → c'.exited = true ∨ c.dropsGap m calls = true

theorem dispatched_handleGap {m : Message} {calls : Calls} (h : SameWarmth c s) (g : GapMarker)
    (nowMs : Int64) (hparsed : parseMessage m.fields = .gap g) (htakes : c.takesGap m calls) :
    Dispatched c m ({ c with seenIDs := m.id :: c.seenIDs }.handleGap g calls nowMs)
      { s with lastShadowID := m.id, xreadCursor := m.id, aw := s.aw.incrementGap,
               book := s.book.applyGap g } := by
  unfold takesGap at htakes
  rw [hparsed] at htakes
  obtain ⟨hzscore, hdup, hzadd, hzrem⟩ := of_decide_eq_true htakes
  have hnot : { c with seenIDs := m.id :: c.seenIDs }.core.isGapDup g = false := hdup
  unfold handleGap
  rw [hzscore, if_neg Bool.true_eq_false.mp, hnot, if_neg Bool.false_ne_true, hzadd,
    if_neg Bool.true_eq_false.mp]
  dsimp only
  rw [hzrem, if_neg Bool.true_eq_false.mp, h.book, h.aw]
  exact ⟨⟨rfl, rfl⟩, rfl, rfl⟩

theorem dispatched_handleSnapshot (h : SameWarmth c s) (m : Message) (sn : SnapshotEvent)
    (calls : Calls) (nowMs : Int64) :
    Dispatched c m
      ({ c with seenIDs := m.id :: c.seenIDs }.handleSnapshot F depth sn calls nowMs).1
      { s with lastShadowID := m.id, xreadCursor := m.id, aw := s.aw.reset,
               book := (s.book.applySnapshot sn).1 } := by
  have haw : (if 0 < c.tickCount then c.aw.flush F depth c.book true nowMs calls.writeBar
      else (c.aw, none)).1.reset = s.aw.reset := by
    split
    · rw [FullAccWriter.reset_flush, h.aw]
    · rw [h.aw]
  refine ⟨⟨?_, haw⟩, rfl, rfl⟩
  simp only [handleSnapshot]
  rw [h.book]

/-- **An entry that the active consumer hands on does the same in the shadow mode.** -/
theorem dispatched_handleMessage {m : Message} {calls : Calls} (h : SameWarmth c s) (nowMs : Int64)
    (hd : c.dispatches m calls) :
    Dispatched c m (c.handleMessage N F bestQuote depth m calls nowMs).1
      (s.handleShadowMessage N bestQuote depth m) := by
  obtain ⟨hnew, htaken⟩ := of_decide_eq_true hd
  unfold handleShadowMessage
  dsimp only
  rw [handleMessage_eq, if_neg hnew]
  dsimp only
  cases hzero : m.isZeroVolume with
  | true => exact ⟨⟨h.book, h.aw⟩, rfl, rfl⟩
  | false =>
      obtain ⟨hxack, htakes⟩ := htaken.resolve_left (by rw [hzero]; exact Bool.false_ne_true)
      rw [if_neg Bool.false_ne_true, if_neg Bool.false_ne_true, hxack,
        if_neg Bool.true_eq_false.mp]
      cases hparsed : parseMessage m.fields with
      | tick t =>
          have hseen : SameWarmth { c with seenIDs := m.id :: c.seenIDs }
              { s with lastShadowID := m.id, xreadCursor := m.id } := ⟨h.book, h.aw⟩
          exact ⟨⟨(hseen.applyTick t).book, (hseen.applyTick t).aw⟩, rfl, rfl⟩
      | gap g => exact dispatched_handleGap h g nowMs hparsed htakes
      | snapshot sn => exact dispatched_handleSnapshot h m sn calls nowMs
      | unknown => exact ⟨⟨h.book, h.aw⟩, rfl, rfl⟩

theorem passed_handleGap {m : Message} {calls : Calls} (g : GapMarker) (nowMs : Int64)
    (hparsed : parseMessage m.fields = .gap g) (hnew : m.id ∉ c.seenIDs)
    (hxack : calls.xack = true) (htakes : ¬ c.takesGap m calls) :
    Passed c m calls ({ c with seenIDs := m.id :: c.seenIDs }.handleGap g calls nowMs) := by
  have hcore : { c with seenIDs := m.id :: c.seenIDs }.core.isGapDup g = c.core.isGapDup g := rfl
  have hunacked : m.id ∉ c.seenIDs → calls.xack = false →
      ({ c with seenIDs := m.id :: c.seenIDs }.handleGap g calls nowMs).seenIDs = c.seenIDs :=
    fun _ h => absurd (h.symm.trans hxack) Bool.false_ne_true
  unfold takesGap at htakes
  rw [hparsed] at htakes
  revert hunacked
  unfold handleGap
  rw [hcore]
  -- The call that fails ends the run, unless the gap is left out before it.
  cases hzscore : calls.zscore with
  | false => exact fun hunacked => ⟨⟨rfl, rfl⟩, fun h => absurd h hnew, hunacked, fun _ => .inl rfl⟩
  | true =>
      rw [if_neg Bool.true_eq_false.mp]
      cases hdup : c.core.isGapDup g with
      | true =>
          have hdrops : c.dropsGap m calls = true := by
            rw [dropsGap, hparsed]
            exact decide_eq_true ⟨hdup, hxack, hzscore⟩
          exact fun hunacked => ⟨⟨rfl, rfl⟩, fun h => absurd h hnew, hunacked, fun _ => .inr hdrops⟩
      | false =>
          rw [if_neg Bool.false_ne_true]
          cases hzadd : calls.zadd with
          | false =>
              exact fun hunacked =>
                ⟨⟨rfl, rfl⟩, fun h => absurd h hnew, hunacked, fun _ => .inl rfl⟩
          | true =>
              rw [if_neg Bool.true_eq_false.mp]
              cases hzrem : calls.zremrangebyrank with
              | false =>
                  exact fun hunacked =>
                    ⟨⟨rfl, rfl⟩, fun h => absurd h hnew, hunacked, fun _ => .inl rfl⟩
              | true => exact absurd (decide_eq_true ⟨hzscore, hdup, hzadd, hzrem⟩) htakes

/-- **An entry that is not handed on leaves the book and the accumulators alone.** -/
theorem passed_handleMessage {m : Message} {calls : Calls} (nowMs : Int64)
    (hd : ¬ c.dispatches m calls) :
    Passed c m calls (c.handleMessage N F bestQuote depth m calls nowMs).1 := by
  rw [handleMessage_eq]
  by_cases hseen : m.id ∈ c.seenIDs
  · rw [if_pos hseen]
    exact ⟨⟨rfl, rfl⟩, fun _ => rfl, fun h => absurd hseen h, fun h => absurd hseen h⟩
  rw [if_neg hseen]
  dsimp only
  have hnot : ¬ (m.isZeroVolume = true ∨ calls.xack = true ∧ c.takesGap m calls) := fun h =>
    hd (decide_eq_true ⟨hseen, h⟩)
  rw [not_or] at hnot
  rw [if_neg hnot.1]
  cases hxack : calls.xack with
  | false =>
      exact ⟨⟨rfl, rfl⟩, fun h => absurd h hseen, fun _ _ => rfl, fun _ => .inl rfl⟩
  | true =>
      rw [if_neg Bool.true_eq_false.mp]
      have htakes : ¬ c.takesGap m calls := fun h => hnot.2 ⟨hxack, h⟩
      cases hparsed : parseMessage m.fields with
      | gap g => exact passed_handleGap g nowMs hparsed hseen hxack htakes
      | tick t => exact absurd (by rw [takesGap, hparsed]) htakes
      | snapshot sn => exact absurd (by rw [takesGap, hparsed]) htakes
      | unknown => exact absurd (by rw [takesGap, hparsed]) htakes

/-! ### Runs -/

section Runs

variable (N F bestQuote depth)

/-- An entry in the shadow mode. -/
def shadowStep : Step FullConsumer (Message × Int64) FullFlushed := fun c e =>
  (c.handleShadowMessage N bestQuote depth e.1, [])

/-- An entry of the active consumer with the time of its handling; all calls succeed. -/
def activeStep : Step FullConsumer (Message × Int64) FullFlushed := fun c e =>
  ((c.handleMessage N F bestQuote depth e.1 {} e.2).1,
    (c.handleMessage N F bestQuote depth e.1 {} e.2).2.toList)

/-- The entry is not a gap that has been counted before. -/
def keepsGap (c : FullConsumer) (e : Message × Int64) : Bool :=
  match parseMessage e.1.fields with
  | .gap g => !c.core.isGapDup g
  | _ => true

end Runs

/-- With all calls succeeding, what is new is handed on unless it is a gap counted before. -/
theorem dispatches_of_keepsGap {e : Message × Int64} (hnew : e.1.id ∉ c.seenIDs)
    (hkeeps : c.keepsGap e) : c.dispatches e.1 {} := by
  refine decide_eq_true ⟨hnew, .inr ⟨rfl, ?_⟩⟩
  unfold keepsGap at hkeeps
  unfold takesGap
  cases hparsed : parseMessage e.1.fields with
  | gap g =>
      rw [hparsed] at hkeeps
      exact decide_eq_true ⟨rfl, by simpa using hkeeps, rfl, rfl⟩
  | tick t => rfl
  | snapshot sn => rfl
  | unknown => rfl

/-- A run of entries that the active consumer takes keeps the warmth. -/
theorem sameWarmth_run (es : List (Message × Int64)) :
    ∀ {c s : FullConsumer}, SameWarmth c s → (es.map fun e => e.1.id).Nodup →
      (∀ e ∈ es, e.1.id ∉ c.seenIDs) →
      Along (activeStep N F bestQuote depth) (fun c e => c.keepsGap e) c es →
      SameWarmth (final (activeStep N F bestQuote depth) c es)
        (final (shadowStep N bestQuote depth) s es) := by
  induction es with
  | nil => exact fun h _ _ _ => h
  | cons e es ih =>
      intro c s h hids hnew hkeeps
      obtain ⟨hid, hids⟩ := List.nodup_cons.mp hids
      have hstep : Dispatched c e.1 (activeStep N F bestQuote depth c e).1
          (shadowStep N bestQuote depth s e).1 :=
        dispatched_handleMessage h e.2
          (dispatches_of_keepsGap (hnew e List.mem_cons_self) hkeeps.1)
      refine ih hstep.warmth hids (fun e' he' hmem => ?_) hkeeps.2
      -- The ids differ, so that what follows has not been seen either.
      rw [hstep.seenIDs] at hmem
      rcases List.mem_cons.mp hmem with heq | hmem
      · exact hid (List.mem_map.mpr ⟨e', he', heq⟩)
      · exact hnew e' (List.mem_cons_of_mem e he') hmem

/-- A trade, an order, a gap, a snapshot and another trade. -/
def warmEntries : List (Message × Int64) :=
  let tick (id event price size : String) : Message × Int64 :=
    (⟨id, [("type", "tick"), ("event_type", event), ("side", "buy"), ("price", price),
      ("size", size)]⟩, 60100)
  [tick "1-0" "trade" "7" "3", tick "2-0" "delta" "6" "1",
    (⟨"3-0", [("type", "gap"), ("seq_before", "1"), ("seq_after", "5")]⟩, 60200),
    tick "4-0" "trade" "7" "2", (⟨"5-0", [("type", "snapshot")]⟩, 60300),
    tick "6-0" "trade" "8" "1"]

end FullConsumer

end MagnumOpus.Candle
