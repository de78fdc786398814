import MagnumOpus.Candle.ColdStart

/-! # A candle book is what its log says

The levels of a book against the entries it was given.

* **The log.** `applied` reads the entries backwards to the last one that clears the book, a
  snapshot or a gap: the deltas since then, and at the snapshot that ends cold start those that were
  waiting and are past it.
* **Refinement.** Each side of the book is the writes of these deltas, as long as the cold buffer
  does not overflow and no snapshot is taken for a sequence reset (`Calm`).
* **Every run.** No level has the size `0`, trades change nothing, the cold buffer stays below its
  limit, and an overflow says so once and empties it (`Sound`). -/

namespace MagnumOpus.Candle.OrderBook

open EventMachine KeyedWrites

/-! ### The log -/

/-- The last entry of a log, newest first, that tells whether the book has a snapshot. -/
def warm : List ParsedMessage → Bool
  | [] => false
  | .snapshot _ :: _ => true
  | .gap g :: older => if g.gapCause = "internal_merge_error" then false else warm older
  | .tick _ :: older => warm older
  | .unknown :: older => warm older

/-- The deltas that wait for a snapshot, since the last entry that clears the book. -/
def waiting : List ParsedMessage → List Tick
  | [] => []
  | .snapshot _ :: _ => []
  | .gap _ :: _ => []
  | .tick t :: older => if t.level ≠ 0 ∧ warm older = false then waiting older ++ [t]
      else waiting older
  | .unknown :: older => waiting older

/-- The deltas that were applied since the last entry that clears the book. -/
def applied : List ParsedMessage → List Tick
  | [] => []
  | .snapshot s :: older =>
      if warm older then [] else (waiting older).filter fun t => s.seq < t.seq
  | .gap _ :: _ => []
  | .tick t :: older => if t.level ≠ 0 ∧ warm older = true then applied older ++ [t]
      else applied older
  | .unknown :: older => applied older

/-- The write of a delta to its side: the size `0` deletes. -/
def levelWrite (t : Tick) : String × Option String :=
  (t.price, if t.size = "0" then none else some t.size)

/-- The levels that deltas leave on the bids. -/
def bidsOf (ts : List Tick) : Levels :=
  writes ∅ ((ts.filter fun t => t.side = "buy").map levelWrite)

/-- The levels that deltas leave on the asks. -/
def asksOf (ts : List Tick) : Levels :=
  writes ∅ ((ts.filter fun t => t.side ≠ "buy").map levelWrite)

/-! ### Applying deltas -/

theorem bidsOf_append (ts : List Tick) (t : Tick) :
    bidsOf (ts ++ [t]) = if t.side = "buy" then setLevel (bidsOf ts) t.price t.size
      else bidsOf ts := by
  unfold bidsOf setLevel
  by_cases h : t.side = "buy"
  · simp [h, List.filter_append, writes_append, levelWrite]
  · simp [h, List.filter_append]

theorem asksOf_append (ts : List Tick) (t : Tick) :
    asksOf (ts ++ [t]) = if t.side = "buy" then asksOf ts
      else setLevel (asksOf ts) t.price t.size := by
  unfold asksOf setLevel
  by_cases h : t.side = "buy"
  · simp [h, List.filter_append]
  · simp [h, List.filter_append, writes_append, levelWrite]

/-- The book with the levels that `ts` leave. -/
def atLevels (ob : OrderBook) (ts : List Tick) : OrderBook :=
  { ob with bids := bidsOf ts, asks := asksOf ts }

theorem applyDelta_atLevels (ob : OrderBook) (ts : List Tick) (t : Tick) :
    (ob.atLevels ts).applyDelta t = ob.atLevels (ts ++ [t]) := by
  unfold applyDelta atLevels
  rw [bidsOf_append, asksOf_append]
  by_cases h : t.side = "buy"
  · simp [h]
  · simp [h]

theorem replay_atLevels (ob : OrderBook) (ts : List Tick) : ∀ us : List Tick,
    us.foldl applyDelta (ob.atLevels ts) = ob.atLevels (ts ++ us)
  | [] => by rw [List.append_nil]; rfl
  | u :: us => by
      rw [List.foldl_cons, applyDelta_atLevels, replay_atLevels, List.append_assoc]
      rfl

/-! ### Refinement -/

/-- The cold buffer does not overflow, and no snapshot is taken for a sequence reset. -/
def Calm (ob : OrderBook) (m : ParsedMessage) : Prop :=
  ∀ g ∈ (ob.applyMessage m).2,
    g.gapCause ≠ "cold_start_buffer_overflow" ∧ g.gapCause ≠ "seq_reset"

instance (ob : OrderBook) (m : ParsedMessage) : Decidable (Calm ob m) :=
  inferInstanceAs (Decidable (∀ g ∈ (ob.applyMessage m).2, _))

/-- The book is in the state that its log, newest first, tells. -/
structure Tells (log : List ParsedMessage) (ob : OrderBook) : Prop where
  seen : ob.snapshotSeen = warm log
  coldBuf : ob.coldBuf = waiting log
  bids : ob.bids = bidsOf (applied log)
  asks : ob.asks = asksOf (applied log)

variable {log : List ParsedMessage} {ob : OrderBook}

theorem Tells.eq_atLevels (h : Tells log ob) : ob = ob.atLevels (applied log) := by
  unfold atLevels
  rw [← h.bids, ← h.asks]

theorem Tells.tick (h : Tells log ob) (t : Tick) (hcalm : Calm ob (.tick t)) :
    Tells (.tick t :: log) (ob.applyMessage (.tick t)).1 := by
  unfold Calm at hcalm
  unfold applyMessage applyTick at hcalm ⊢
  by_cases hlevel : t.level = 0
  · simp only [if_pos hlevel]
    constructor
    · exact h.seen
    · simp [waiting, hlevel, h.coldBuf]
    · simp [applied, hlevel, h.bids]
    · simp [applied, hlevel, h.asks]
  · simp only [if_neg hlevel] at hcalm ⊢
    cases hwarm : warm log with
    | false =>
        have hseen : ob.snapshotSeen = false := h.seen.trans hwarm
        rw [if_pos hseen] at hcalm ⊢
        unfold bufferDelta at hcalm ⊢
        dsimp only at hcalm ⊢
        split at hcalm
        · exact absurd rfl (hcalm _ List.mem_cons_self).1
        · next hroom =>
            rw [if_neg hroom]
            constructor
            · exact h.seen
            · simp [waiting, hlevel, hwarm, h.coldBuf]
            · simp [applied, hwarm, h.bids]
            · simp [applied, hwarm, h.asks]
    | true =>
        have hseen : ob.snapshotSeen = true := h.seen.trans hwarm
        rw [if_neg (by simp [hseen])]
        have happly : ob.applyDelta t = ob.atLevels (applied log ++ [t]) := by
          rw [← applyDelta_atLevels, ← h.eq_atLevels]
        rw [happly]
        constructor
        · exact h.seen
        · simp [atLevels, waiting, hwarm, h.coldBuf]
        · simp [atLevels, applied, hlevel, hwarm]
        · simp [atLevels, applied, hlevel, hwarm]

theorem Tells.snapshot (h : Tells log ob) (s : SnapshotEvent) (hcalm : Calm ob (.snapshot s)) :
    Tells (.snapshot s :: log) (ob.applyMessage (.snapshot s)).1 := by
  unfold Calm at hcalm
  unfold applyMessage applySnapshot at hcalm ⊢
  cases hwarm : warm log with
  | true =>
      have hseen : ob.snapshotSeen = true := h.seen.trans hwarm
      simp only [if_pos hseen]
      constructor
      · exact hseen
      · rfl
      · simp [applied, hwarm, bidsOf]
      · simp [applied, hwarm, asksOf]
  | false =>
      have hseen : ¬ ob.snapshotSeen = true := by
        rw [h.seen, hwarm]
        exact Bool.false_ne_true
      simp only [if_neg hseen] at hcalm ⊢
      split at hcalm
      · exact absurd rfl (hcalm _ List.mem_cons_self).2
      · next hreset =>
          simp only [if_neg hreset]
          have hreplay := replay_atLevels { ob with snapshotSeen := true, snapSeq := s.seq } []
            (ob.coldBuf.filter fun t => s.seq < t.seq)
          have hclean : ({ ob with snapshotSeen := true, snapSeq := s.seq }).atLevels []
              = { ob with bids := ∅, asks := ∅, snapshotSeen := true, snapSeq := s.seq } := rfl
          rw [hclean, List.nil_append, h.coldBuf] at hreplay
          rw [h.coldBuf, hreplay]
          constructor
          · rfl
          · rfl
          · simp [atLevels, applied, hwarm]
          · simp [atLevels, applied, hwarm]

theorem Tells.gap (h : Tells log ob) (g : GapMarker) :
    Tells (.gap g :: log) (ob.applyMessage (.gap g)).1 := by
  unfold applyMessage applyGap
  dsimp only
  split
  · next hcause => exact ⟨by simp [warm, hcause], rfl, rfl, rfl⟩
  · next hcause => exact ⟨by simp [warm, hcause, h.seen], rfl, rfl, rfl⟩

theorem Tells.step (h : Tells log ob) (m : ParsedMessage) (hcalm : Calm ob m) :
    Tells (m :: log) (ob.applyMessage m).1 := by
  cases m with
  | tick t => exact h.tick t hcalm
  | gap g => exact h.gap g
  | snapshot s => exact h.snapshot s hcalm
  | unknown => exact ⟨h.seen, h.coldBuf, h.bids, h.asks⟩

/-- A calm run leaves the book that its log tells. -/
theorem tells_of_calm (exchange symbol : String) (coldBufSize : ℕ) (es : List ParsedMessage)
    (h : Along bookStep Calm (.new exchange symbol coldBufSize) es) :
    Tells es.reverse (final bookStep (.new exchange symbol coldBufSize) es) := by
  induction es using List.reverseRecOn with
  | nil => exact ⟨rfl, rfl, rfl, rfl⟩
  | append_singleton es m ih =>
      obtain ⟨halong, hcalm, -⟩ := along_append.mp h
      rw [final_append, List.reverse_append]
      exact (ih halong).step m hcalm

/-! ### Every run -/

/-- The delta would fill the cold buffer. -/
def Overflows (ob : OrderBook) (t : Tick) : Prop :=
  t.level ≠ 0 ∧ ob.snapshotSeen = false ∧ ob.maxColdBuf ≤ ob.coldBuf.length + 1

/-- What holds whatever came before. -/
structure Sound (ob : OrderBook) : Prop where
  bids : ∀ price, ob.bids.lookup price ≠ some "0"
  asks : ∀ price, ob.asks.lookup price ≠ some "0"
  trade : ∀ t : Tick, t.level = 0 → ob.applyTick t = (ob, [])
  coldBuf : ob.coldBuf.length < max 1 ob.maxColdBuf
  overflow : ∀ t, Overflows ob t → ∃ g, g.gapCause = "cold_start_buffer_overflow" ∧
    ob.applyTick t = ({ ob with coldBuf := [], maxColdSeq := 0 }, [g])

/-- The part of `Sound` that is about the state alone. -/
structure Inv (ob : OrderBook) : Prop where
  bids : ∀ price, ob.bids.lookup price ≠ some "0"
  asks : ∀ price, ob.asks.lookup price ≠ some "0"
  coldBuf : ob.coldBuf.length < max 1 ob.maxColdBuf

theorem lookup_empty_ne (price : String) : (∅ : Levels).lookup price ≠ some "0" := by
  rw [Finmap.lookup_empty]
  intro heq
  cases heq

/-- No level is set to the size `0`. -/
theorem lookup_setLevel_ne {levels : Levels} (h : ∀ price, levels.lookup price ≠ some "0")
    (price size : String) (price' : String) :
    (setLevel levels price size).lookup price' ≠ some "0" := by
  unfold setLevel
  by_cases hprice : price' = price
  · subst hprice
    rw [lookup_write_same]
    by_cases hsize : size = "0"
    · rw [if_pos hsize]
      intro heq
      cases heq
    · rw [if_neg hsize]
      intro heq
      exact hsize (Option.some.inj heq)
  · rw [lookup_write_ne _ _ hprice]
    exact h price'

theorem Inv.applyDelta (h : Inv ob) (t : Tick) : Inv (ob.applyDelta t) := by
  unfold OrderBook.applyDelta
  split
  · exact ⟨lookup_setLevel_ne h.bids _ _, h.asks, h.coldBuf⟩
  · exact ⟨h.bids, lookup_setLevel_ne h.asks _ _, h.coldBuf⟩

theorem Inv.replay (h : Inv ob) (ts : List Tick) : Inv (ts.foldl OrderBook.applyDelta ob) := by
  induction ts generalizing ob with
  | nil => exact h
  | cons t ts ih => exact ih (h.applyDelta t)

theorem inv_cleared (hbids : ob.bids = ∅) (hasks : ob.asks = ∅) (hcold : ob.coldBuf = []) :
    Inv ob := by
  constructor
  · rw [hbids]
    exact lookup_empty_ne
  · rw [hasks]
    exact lookup_empty_ne
  · rw [hcold]
    exact lt_max_of_lt_left Nat.one_pos

theorem Inv.bufferDelta (h : Inv ob) (t : Tick) : Inv (ob.bufferDelta t).1 := by
  unfold OrderBook.bufferDelta
  dsimp only
  split
  · exact ⟨h.bids, h.asks, lt_max_of_lt_left Nat.one_pos⟩
  · next hroom => exact ⟨h.bids, h.asks, lt_max_of_lt_right (not_le.mp hroom)⟩

theorem Inv.applySnapshot (h : Inv ob) (s : SnapshotEvent) : Inv (ob.applySnapshot s).1 := by
  unfold OrderBook.applySnapshot
  split
  · exact inv_cleared rfl rfl rfl
  · split
    · exact inv_cleared rfl rfl rfl
    · have hclean : Inv { ob with bids := ∅, asks := ∅, snapshotSeen := true, snapSeq := s.seq } :=
        ⟨lookup_empty_ne, lookup_empty_ne, h.coldBuf⟩
      have hreplayed := hclean.replay (ob.coldBuf.filter fun t => s.seq < t.seq)
      exact ⟨hreplayed.bids, hreplayed.asks, lt_max_of_lt_left Nat.one_pos⟩

theorem Inv.step (h : Inv ob) (m : ParsedMessage) : Inv (ob.applyMessage m).1 := by
  cases m with
  | tick t =>
      show Inv (ob.applyTick t).1
      unfold applyTick
      split
      · exact h
      · split
        · exact h.bufferDelta t
        · exact h.applyDelta t
  | gap g =>
      unfold applyMessage applyGap
      dsimp only
      split
      · exact inv_cleared rfl rfl rfl
      · exact inv_cleared rfl rfl rfl
  | snapshot s => exact h.applySnapshot s
  | unknown => exact h

/-- An overflow says so once and empties the buffer. -/
theorem applyTick_of_overflows {t : Tick} (h : Overflows ob t) :
    ∃ g, g.gapCause = "cold_start_buffer_overflow" ∧
      ob.applyTick t = ({ ob with coldBuf := [], maxColdSeq := 0 }, [g]) := by
  obtain ⟨hlevel, hcold, hfull⟩ := h
  unfold applyTick bufferDelta
  rw [if_neg hlevel, if_pos hcold]
  dsimp only
  rw [List.length_append, List.length_singleton, if_pos hfull]
  exact ⟨_, rfl, rfl⟩

theorem Inv.sound (h : Inv ob) : Sound ob where
  bids := h.bids
  asks := h.asks
  trade _ hlevel := if_pos hlevel
  coldBuf := h.coldBuf
  overflow _ ht := applyTick_of_overflows ht

/-- **Every run leaves a sound book, and a calm one the book of its log.** -/
theorem book_of_log (exchange symbol : String) (coldBufSize : ℕ) (es : List ParsedMessage) :
    let ob := final bookStep (.new exchange symbol coldBufSize) es
    Sound ob ∧ (Along bookStep Calm (.new exchange symbol coldBufSize) es →
      ob.bids = bidsOf (applied es.reverse) ∧ ob.asks = asksOf (applied es.reverse)) := by
  intro ob
  have hinv : Inv ob := final_invariant (fun _ m h => h.step m) es (inv_cleared rfl rfl rfl)
  refine ⟨hinv.sound, fun hcalm => ?_⟩
  have htells := tells_of_calm exchange symbol coldBufSize es hcalm
  exact ⟨htells.bids, htells.asks⟩

/-- A level of one side. -/
def levelTick (seq : Int64) (side price size : String) : ParsedMessage :=
  .tick ⟨seq, 0, price, size, side, 2⟩

/-- Of the deltas that wait for the snapshot at 6 the first one is not past it; the last one deletes
a level. -/
def calmLog : List ParsedMessage :=
  [levelTick 6 "buy" "99" "4", levelTick 7 "buy" "100" "1", .snapshot ⟨6, 0⟩,
    levelTick 8 "sell" "101" "2", levelTick 9 "sell" "102" "3", levelTick 10 "sell" "101" "0"]

theorem book_of_calmLog :
    let ob := final bookStep (.new "bybit" "BTC-USDT" 10) calmLog
    ob.bids.lookup "100" = some "1" ∧ ob.bids.lookup "99" = none ∧
      ob.asks.lookup "102" = some "3" ∧ ob.asks.lookup "101" = none := by
  intro ob
  obtain ⟨-, hcalm⟩ := book_of_log "bybit" "BTC-USDT" 10 calmLog
  obtain ⟨hbids, hasks⟩ := hcalm (by decide)
  rw [hbids, hasks]
  decide

end MagnumOpus.Candle.OrderBook
