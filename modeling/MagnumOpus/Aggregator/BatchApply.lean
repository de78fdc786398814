import MagnumOpus.Aggregator.MarketMessage
import MagnumOpus.Aggregator.WorkerSteps

/-! # Applying the level changes of a message

An order-book message lists level changes; the worker gets them one tick at a time, and the book
tests the sequence of each against the last one applied.

* **The purpose.** `AppliesAll w es ds`: after the events `es` the book is the earlier one with
  *all* the changes `ds` of the message performed in sequence order (`bySeq`), and none of them has
  been ignored at its turn.
* **When it holds.** Exactly when the changes that name a level are listed in rising order of
  their sequences (`appliesAll_iff`).  A message whose asks come before its bids in sequence does
  not qualify, and neither does one that gives two levels one sequence. -/

namespace MagnumOpus.Aggregator

open EventMachine Reconnect

/-- The level changes in sequence order, in the listed order where sequences are equal. -/
def bySeq (ds : List Delta) : List Delta := ds.insertionSort fun d d' => d.seq ≤ d'.seq

/-- The events hand the ticks to the worker in order, and no handler panics. -/
structure Delivers (es : List Event) (ts : List Tick) : Prop where
  inputs : es.map Event.input = ts.map Input.tick
  calm : ∀ e ∈ es, e.panicAt = none

namespace Worker

/-- All changes of a message are applied in sequence order, and none is ignored at its turn. -/
structure AppliesAll (w : Worker) (es : List Event) (ds : List Delta) : Prop where
  book : (final step w es).book = w.book.changeAll (bySeq ds)
  heeded : ∀ k d, ds[k]? = some d → d.price ≠ "" → (final step w (es.take k)).book.lastSeq < d.seq

/-- Order-book ticks outside of buffering only move the trackers and apply their deltas. -/
theorem final_updates : ∀ {es : List Event} {ts : List Tick} {w : Worker},
    Delivers es ts → (∀ t ∈ ts, t.type = .update) → w.returned = false →
    w.recon.state ≠ .buffering →
      (final step w es).book = w.book.applyAll (ts.map Tick.delta) ∧
      (final step w es).recon = w.recon ∧ (final step w es).returned = false
  | [], [], _, _, _, hw, _ => ⟨rfl, rfl, hw⟩
  | [], _ :: _, _, h, _, _, _ => by simpa using h.inputs
  | _ :: _, [], _, h, _, _, _ => by simpa using h.inputs
  | e :: es, t :: ts, w, h, htype, hw, hs => by
      obtain ⟨hi, his⟩ := List.cons.inj h.inputs
      have hstep := step_update hw (h.calm e List.mem_cons_self) hi (htype t List.mem_cons_self) hs
      have hrest : Delivers es ts := ⟨his, fun e' he' => h.calm e' (List.mem_cons_of_mem e he')⟩
      have htypes : ∀ t' ∈ ts, t'.type = .update :=
        fun t' ht' => htype t' (List.mem_cons_of_mem t ht')
      have hw' : (w.afterUpdate t).returned = false := by rw [afterUpdate_returned, hw]
      have hs' : (w.afterUpdate t).recon.state ≠ .buffering := by rwa [afterUpdate_recon]
      obtain ⟨hbook, hrecon, hret⟩ := final_updates hrest htypes hw' hs'
      rw [final_cons, hstep]
      exact ⟨by rw [hbook, afterUpdate_book]; rfl, by rw [hrecon, afterUpdate_recon], hret⟩

end Worker

/-! ### The order of the changes -/

/-- Changes without a price change nothing. -/
theorem OrderBook.changeAll_priced : ∀ (ob : OrderBook) (ds : List Delta),
    ob.changeAll (priced ds) = ob.changeAll ds
  | _, [] => rfl
  | ob, d :: ds => by
      by_cases hp : d.price = ""
      · rw [priced_cons_of_empty hp, changeAll_cons, change_of_empty hp, changeAll_priced ob ds]
      · rw [priced_cons_of_ne hp, changeAll_cons, changeAll_cons, changeAll_priced]

/-- Changes that name a level and are listed in rising order stay in that order when all changes
are sorted. -/
theorem priced_bySeq {ds : List Delta}
    (h : ((OrderBook.priced ds).map Delta.seq).Pairwise (· < ·)) :
    OrderBook.priced (bySeq ds) = OrderBook.priced ds := by
  have hlt : (OrderBook.priced ds).Pairwise fun d d' => d.seq < d'.seq := List.pairwise_map.mp h
  have hperm : (OrderBook.priced (bySeq ds)).Perm (OrderBook.priced ds) :=
    (List.perm_insertionSort _ ds).filter _
  have hsorted : (bySeq ds).Pairwise fun d d' => d.seq ≤ d'.seq := by
    have : Std.Total fun d d' : Delta => d.seq ≤ d'.seq := ⟨fun _ _ => UInt64.le_total _ _⟩
    have : IsTrans Delta fun d d' => d.seq ≤ d'.seq := ⟨fun _ _ _ => UInt64.le_trans⟩
    exact List.pairwise_insertionSort _ ds
  have hnodup : ((OrderBook.priced ds).map Delta.seq).Nodup :=
    List.Pairwise.imp (fun hd => UInt64.ne_of_lt hd) h
  have hle : (OrderBook.priced ds).Pairwise fun d d' => d.seq ≤ d'.seq :=
    hlt.imp fun hd => UInt64.le_of_lt hd
  have hle' : (OrderBook.priced (bySeq ds)).Pairwise fun d d' => d.seq ≤ d'.seq :=
    hsorted.filter _
  -- Both lists are sorted, and no two of their changes have the same sequence.
  refine List.Perm.eq_of_pairwise ?_ hle' hle hperm
  intro d d' hd hd' hdd' hd'd
  exact List.inj_on_of_nodup_map hnodup (hperm.mem_iff.mp hd) hd' (UInt64.le_antisymm hdd' hd'd)

/-- Nothing is dropped when every change is past the book at its turn. -/
theorem OrderBook.heeded_iff_getElem : ∀ (ob : OrderBook) (ds : List Delta),
    ob.Heeded ds ↔
      ∀ k d, ds[k]? = some d → d.price ≠ "" → (ob.applyAll (ds.take k)).lastSeq < d.seq
  | _, [] => by simp [Heeded]
  | ob, d :: ds => by
      rw [Heeded, heeded_iff_getElem (ob.apply d) ds]
      refine ⟨fun h k d' hk hp => ?_, fun h => ⟨fun hp => h 0 d rfl hp, fun k d' hk hp => ?_⟩⟩
      · cases k with
        | zero =>
            obtain rfl := Option.some.inj hk
            exact h.1 hp
        | succ k => exact h.2 k d' hk hp
      · exact h (k + 1) d' hk hp

/-- When every change is past the book, nothing is dropped exactly when those that name a level
rise. -/
theorem OrderBook.heeded_iff_pairwise {ob : OrderBook} {ds : List Delta}
    (hseq : ∀ d ∈ ds, ob.lastSeq < d.seq) :
    ob.Heeded ds ↔ ((priced ds).map Delta.seq).Pairwise (· < ·) := by
  rw [heeded_iff_isChain, List.isChain_iff_pairwise, List.pairwise_cons]
  refine and_iff_right fun n hn => ?_
  obtain ⟨d, hd, rfl⟩ := List.mem_map.mp hn
  exact hseq d (List.mem_of_mem_filter hd)

/-- Rising changes past the book are all applied, and in sequence order. -/
theorem OrderBook.applyAll_eq_bySeq {ob : OrderBook} {ds : List Delta}
    (hseq : ∀ d ∈ ds, ob.lastSeq < d.seq) (h : ((priced ds).map Delta.seq).Pairwise (· < ·)) :
    ob.applyAll ds = ob.changeAll (bySeq ds) :=
  calc ob.applyAll ds = ob.changeAll ds := applyAll_eq_changeAll ((heeded_iff_pairwise hseq).mpr h)
    _ = ob.changeAll (priced (bySeq ds)) := by rw [priced_bySeq h, changeAll_priced]
    _ = ob.changeAll (bySeq ds) := changeAll_priced ob (bySeq ds)

theorem Delivers.take {es : List Event} {ts : List Tick} (h : Delivers es ts) (k : ℕ) :
    Delivers (es.take k) (ts.take k) :=
  ⟨by rw [List.map_take, List.map_take, h.inputs], fun e he => h.calm e (List.mem_of_mem_take he)⟩

/-- **All the level changes of a message are applied, and none is ignored, exactly when those that
name a level are listed in rising order of their sequences.** -/
theorem Worker.appliesAll_iff {w : Worker} {m : MarketMessage} {ds : List Delta}
    {tsLocal : Int64} {es : List Event} (hlive : w.recon.state = .live)
    (hw : w.returned = false) (hm : m.levelChanges = some ds)
    (hseq : ∀ d ∈ ds, w.book.lastSeq < d.seq) (hes : Delivers es (m.ticks tsLocal)) :
    w.AppliesAll es ds ↔ ((OrderBook.priced ds).map Delta.seq).Pairwise (· < ·) := by
  have hbook : ∀ k, (final step w (es.take k)).book = w.book.applyAll (ds.take k) := by
    intro k
    have htype : ∀ t ∈ (m.ticks tsLocal).take k, t.type = .update :=
      fun t ht => MarketMessage.type_of_mem_ticks hm (List.mem_of_mem_take ht)
    have hs : w.recon.state ≠ .buffering := by
      rw [hlive]
      decide
    rw [(final_updates (hes.take k) htype hw hs).1, List.map_take,
      MarketMessage.map_delta_ticks hm]
  have hheeded : (∀ k d, ds[k]? = some d → d.price ≠ "" →
      (final step w (es.take k)).book.lastSeq < d.seq) ↔ w.book.Heeded ds := by
    simp only [hbook]
    exact (OrderBook.heeded_iff_getElem w.book ds).symm
  have hchain := OrderBook.heeded_iff_pairwise hseq
  refine ⟨fun h => hchain.mp (hheeded.mp h.heeded), fun h => ⟨?_, hheeded.mpr (hchain.mpr h)⟩⟩
  have hall : (final step w es).book = w.book.applyAll ds := by
    have hlen : es.length = ds.length := by
      have := congrArg List.length hes.inputs
      rw [← MarketMessage.map_delta_ticks hm tsLocal]
      simpa using this
    have := hbook es.length
    rwa [List.take_length, hlen, List.take_length] at this
  calc (final step w es).book = w.book.applyAll ds := hall
    _ = w.book.changeAll (bySeq ds) := OrderBook.applyAll_eq_bySeq hseq h

/-! ### Two messages -/

/-- A worker that has merged a snapshot at sequence 6. -/
def Worker.liveAtSix : Worker :=
  (Worker.new "bybit" "BTC-USDT" false).run [{ input := .snapshot ⟨6, ∅, ∅⟩ 0, now := 0 }]

def Worker.kucoinAtSix : Worker :=
  (Worker.new "kucoin" "BTC-USDT" false).run [{ input := .snapshot ⟨6, ∅, ∅⟩ 0, now := 0 }]

/-- The bids of a Bybit message at update 7. -/
def MarketMessage.bidsAtSeven (bids : List (String × String)) : MarketMessage :=
  .bybit { topic := "orderbook.1.BTCUSDT", ts := 1000,
           data := some (.obj [("s", .str "BTCUSDT"),
             ("b", .arr (bids.map fun b => .arr [.str b.1, .str b.2])), ("u", .num "7")]) }

/-- The changes of one bid each at update 7. -/
def deltasAtSeven (bids : List (String × String)) : List Delta :=
  bids.map fun b => { seq := 7, side := .bid, price := b.1, size := b.2, tsExchange := 1000000000 }

/-- Hands ticks to a worker. -/
def deliver (ts : List Tick) : List Event := ts.map fun t => { input := .tick t, now := 0 }

theorem delivers_deliver (ts : List Tick) : Delivers (deliver ts) ts := by
  refine ⟨by simp [deliver, Function.comp_def], fun e he => ?_⟩
  obtain ⟨t, -, rfl⟩ := List.mem_map.mp he
  rfl

/-- A KuCoin message with three changes, whose sequences rise. -/
def MarketMessage.threeChanges : MarketMessage :=
  .kucoin { topic := "/market/level2:BTC-USDT",
            data := some (.obj [("sequenceStart", .num "7"), ("sequenceEnd", .num "12"),
              ("changes", .obj [
                ("bids", .arr [.arr [.str "100", .str "1", .str "8"],
                  .arr [.str "99", .str "0", .str "10"]]),
                ("asks", .arr [.arr [.str "101", .str "2", .str "11"]])]),
              ("time", .num "1000")]) }

def threeDeltas : List Delta :=
  [⟨8, .bid, "100", "1", 1000000000⟩, ⟨10, .bid, "99", "0", 1000000000⟩,
    ⟨11, .ask, "101", "2", 1000000000⟩]

/-- They are applied in full. -/
theorem Worker.three_changes_applied :
    kucoinAtSix.AppliesAll (deliver (MarketMessage.threeChanges.ticks 0)) threeDeltas :=
  (appliesAll_iff (by decide) (by decide) (by decide) (by decide) (delivers_deliver _)).mpr
    (by decide)

/-- Of a message with two levels the second one is ignored: it has the sequence of the first. -/
theorem Worker.second_level_ignored :
    liveAtSix.recon.state = .live ∧
    (MarketMessage.bidsAtSeven [("100", "1"), ("99", "2")]).levelChanges =
      some (deltasAtSeven [("100", "1"), ("99", "2")]) ∧
    (∀ d ∈ deltasAtSeven [("100", "1"), ("99", "2")], liveAtSix.book.lastSeq < d.seq) ∧
    ¬ liveAtSix.AppliesAll
        (deliver ((MarketMessage.bidsAtSeven [("100", "1"), ("99", "2")]).ticks 0))
        (deltasAtSeven [("100", "1"), ("99", "2")]) := by
  refine ⟨by decide, by decide, by decide, fun h => ?_⟩
  have hbook := congrArg (fun ob : OrderBook => ob.bids.lookup "99") h.book
  revert hbook
  decide

end MagnumOpus.Aggregator
