import MagnumOpus.Lib.EventMachine
import MagnumOpus.Candle.OrderBook

/-! # Leaving cold start

A candle book buffers deltas until it sees a snapshot.  Once it has seen one it applies every delta
directly, whatever entries follow, until a gap with the cause `internal_merge_error`
(`along_direct`).  The snapshot itself is not always enough: one whose number is below half of the
largest buffered number is taken for a sequence reset, and sends the book back to an empty cold
buffer (`leavesColdStart_iff`). -/

namespace MagnumOpus.Candle

open EventMachine

namespace OrderBook

/-- Entries go in, and the markers that the book emits come out. -/
def bookStep : Step OrderBook ParsedMessage GapMarker := applyMessage

/-- The gap that sends a book back to cold start. -/
def isMergeError : ParsedMessage → Bool
  | .gap g => g.gapCause = "internal_merge_error"
  | _ => false

/-- The book has seen a snapshot, and a delta goes straight to the levels. -/
structure Direct (ob : OrderBook) (m : ParsedMessage) : Prop where
  seen : ob.snapshotSeen = true
  applied : ∀ t, m = .tick t → t.level ≠ 0 → ob.applyMessage m = (ob.applyDelta t, [])

/-- The snapshot takes the book out of cold start, and the entries after it find it out of it. -/
structure LeavesColdStart (ob : OrderBook) (s : SnapshotEvent) (later : List ParsedMessage) :
    Prop where
  out : (ob.applySnapshot s).1.snapshotSeen = true
  direct : Along bookStep Direct (ob.applySnapshot s).1 later
  stays : (final bookStep (ob.applySnapshot s).1 later).snapshotSeen = true

/-- The book starts over in cold start, and says so. -/
structure StartsOver (ob : OrderBook) (s : SnapshotEvent) (ob' : OrderBook)
    (gaps : List GapMarker) : Prop where
  cold : ob'.snapshotSeen = false
  buffer : ob'.coldBuf = [] ∧ ob'.maxColdSeq = 0
  levels : ob'.bids = ∅ ∧ ob'.asks = ∅
  gap : gaps = [{ seqBefore := ob.maxColdSeq, seqAfter := s.seq, gapCause := "seq_reset",
                  gapTsMs := s.tsMs, exchange := ob.exchange, symbol := ob.symbol }]

variable (ob : OrderBook)

theorem snapshotSeen_applyDelta (t : Tick) : (ob.applyDelta t).snapshotSeen = ob.snapshotSeen := by
  unfold applyDelta
  split <;> rfl

theorem snapshotSeen_replay (ts : List Tick) :
    (ts.foldl applyDelta ob).snapshotSeen = ob.snapshotSeen := by
  induction ts generalizing ob with
  | nil => rfl
  | cons t ts ih => exact (ih _).trans (ob.snapshotSeen_applyDelta t)

theorem snapshotSeen_applySnapshot (s : SnapshotEvent) :
    (ob.applySnapshot s).1.snapshotSeen = true ↔
      ob.snapshotSeen = true ∨ ob.seqReset s = false := by
  unfold applySnapshot
  cases hseen : ob.snapshotSeen with
  | true => simp
  | false =>
      cases hreset : ob.seqReset s with
      | true => simp
      | false => simp [snapshotSeen_replay]

theorem startsOver_applySnapshot (s : SnapshotEvent) (hcold : ob.snapshotSeen = false)
    (hreset : ob.seqReset s = true) :
    StartsOver ob s (ob.applySnapshot s).1 (ob.applySnapshot s).2 := by
  unfold applySnapshot
  rw [hcold, hreset]
  exact ⟨rfl, ⟨rfl, rfl⟩, ⟨rfl, rfl⟩, rfl⟩

theorem direct_of_seen (hseen : ob.snapshotSeen = true) (m : ParsedMessage) : Direct ob m where
  seen := hseen
  applied t hm hlevel := by
    rw [hm, applyMessage, applyTick, if_neg hlevel, hseen, if_neg Bool.true_eq_false.mp]

/-- Only a merge error sends a book that has seen a snapshot back to cold start. -/
theorem snapshotSeen_applyMessage {m : ParsedMessage} (hseen : ob.snapshotSeen = true)
    (hm : isMergeError m = false) : (ob.applyMessage m).1.snapshotSeen = true := by
  cases m with
  | tick t =>
      by_cases hlevel : t.level = 0
      · rw [applyMessage, applyTick, if_pos hlevel]
        exact hseen
      · rw [(ob.direct_of_seen hseen _).applied t rfl hlevel]
        exact (ob.snapshotSeen_applyDelta t).trans hseen
  | gap g =>
      have hcause : g.gapCause ≠ "internal_merge_error" := of_decide_eq_false hm
      rw [applyMessage, applyGap, if_neg hcause]
      exact hseen
  | snapshot s => exact (ob.snapshotSeen_applySnapshot s).mpr (.inl hseen)
  | unknown => exact hseen

/-- **Out of cold start, deltas are applied directly until a merge error.** -/
theorem along_direct {later : List ParsedMessage} (hlater : ∀ m ∈ later, isMergeError m = false)
    (hseen : ob.snapshotSeen = true) :
    Along bookStep Direct ob later ∧ (final bookStep ob later).snapshotSeen = true := by
  induction later generalizing ob with
  | nil => exact ⟨trivial, hseen⟩
  | cons m later ih =>
      have hnext := ob.snapshotSeen_applyMessage hseen (hlater m List.mem_cons_self)
      obtain ⟨halong, hfinal⟩ := ih (ob.applyMessage m).1
        (fun m' hm' => hlater m' (List.mem_cons_of_mem m hm')) hnext
      exact ⟨⟨ob.direct_of_seen hseen m, halong⟩, hfinal⟩

/-- **In every run, a snapshot after which no merge error follows takes the book out of cold start
for good, unless it finds the book cold and is taken for a sequence reset; then the book starts
over.** -/
theorem leavesColdStart_iff (exchange symbol : String) (coldBufSize : ℕ)
    (earlier : List ParsedMessage) (s : SnapshotEvent) (later : List ParsedMessage)
    (hlater : ∀ m ∈ later, isMergeError m = false) :
    let ob := final bookStep (.new exchange symbol coldBufSize) earlier
    (LeavesColdStart ob s later ↔ ob.snapshotSeen = true ∨ ob.seqReset s = false) ∧
    (¬ LeavesColdStart ob s later →
      StartsOver ob s (ob.applySnapshot s).1 (ob.applySnapshot s).2) := by
  intro ob
  have hiff : LeavesColdStart ob s later ↔ ob.snapshotSeen = true ∨ ob.seqReset s = false := by
    rw [← snapshotSeen_applySnapshot]
    constructor
    · exact fun h => h.out
    · intro hout
      obtain ⟨hdirect, hstays⟩ := along_direct _ hlater hout
      exact ⟨hout, hdirect, hstays⟩
  refine ⟨hiff, fun hnot => ?_⟩
  rw [hiff, not_or] at hnot
  exact ob.startsOver_applySnapshot s (Bool.eq_false_iff.mpr hnot.1)
    (Bool.eq_true_of_not_eq_false hnot.2)

/-- A delta at a sequence number. -/
def deltaAt (seq : Int64) : ParsedMessage := .tick ⟨seq, 0, "100", "1", "buy", 1⟩

/-- The snapshot after a delta with a number close to it is enough. -/
theorem leavesColdStart_close :
    LeavesColdStart (final bookStep (.new "bybit" "BTC-USDT" 1000) [deltaAt 1000]) ⟨998, 0⟩
      [deltaAt 1001] :=
  (leavesColdStart_iff "bybit" "BTC-USDT" 1000 [deltaAt 1000] ⟨998, 0⟩ [deltaAt 1001]
    (List.forall_mem_singleton.mpr rfl)).1.mpr (.inr (by decide))

/-- A snapshot far below the buffered numbers leaves the book cold: the next delta is buffered. -/
theorem stays_cold_after_snapshot :
    ¬ LeavesColdStart (final bookStep (.new "bybit" "BTC-USDT" 1000) [deltaAt 1000]) ⟨400, 0⟩
      [deltaAt 1001] :=
  fun h => absurd h.out (by decide)

end OrderBook

end MagnumOpus.Candle
