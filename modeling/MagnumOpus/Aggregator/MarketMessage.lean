import MagnumOpus.Aggregator.KucoinParser
import MagnumOpus.Aggregator.BybitParser

/-! # Messages of either exchange

A market data message of one of the exchanges, the ticks its adapter sends for it and the level
changes it lists.  The ticks of an order-book message carry exactly its level changes, in the
order in which they are listed (`map_delta_ticks`). -/

namespace MagnumOpus.Aggregator

/-- A market data message as its adapter receives it. -/
inductive MarketMessage where
  | kucoin (msg : Kucoin.WireMessage)
  | bybit (frame : Bybit.Frame)

namespace MarketMessage

/-- The ticks that the adapter sends for a message received at `tsLocal`. -/
def ticks (tsLocal : Int64) : MarketMessage → List Tick
  | kucoin msg => Kucoin.handleMarketData tsLocal msg
  | bybit frame => Bybit.onMsg tsLocal frame

/-- The level changes of an order-book message that parses. -/
def levelChanges : MarketMessage → Option (List Delta)
  | kucoin msg =>
      if Kucoin.isL2Topic msg.topic then
        (Kucoin.parseL2Update msg).toOption.map Kucoin.ParsedUpdate.deltas
      else none
  | bybit frame =>
      if Bybit.isL2Topic frame.topic then
        (Bybit.parseL2Update frame.topic frame.ts frame.data).toOption.map
          Bybit.ParsedUpdate.deltas
      else none

/-- The range of sequence numbers that an order-book message covers. -/
def seqRange : MarketMessage → Option (UInt64 × UInt64)
  | kucoin msg =>
      (Kucoin.parseL2Update msg).toOption.map fun u => (u.msgSeqStart, u.msgSeqEnd)
  | bybit frame => (frame.data.bind Bybit.L2Data.ofJson).map fun d => (d.u, d.u)

def isBybit : MarketMessage → Bool
  | kucoin _ => false
  | bybit _ => true

/-- The parsed update of a KuCoin message that lists level changes. -/
theorem kucoin_of_levelChanges {msg : Kucoin.WireMessage} {ds : List Delta}
    (h : (kucoin msg).levelChanges = some ds) :
    ∃ u, u.deltas = ds ∧ (kucoin msg).seqRange = some (u.msgSeqStart, u.msgSeqEnd) ∧
      ∀ tsLocal, (kucoin msg).ticks tsLocal = Kucoin.updateTicks u tsLocal := by
  simp only [levelChanges] at h
  split at h
  · next htopic =>
      cases hp : Kucoin.parseL2Update msg with
      | error text => rw [hp] at h; cases h
      | ok u =>
          rw [hp] at h
          refine ⟨u, Option.some.inj h, by simp [seqRange, hp, Except.toOption], fun tsLocal => ?_⟩
          simp only [ticks, Kucoin.handleMarketData, htopic, hp, if_true]
  · cases h

/-- The parsed update of a Bybit message that lists level changes: they share one number. -/
theorem bybit_of_levelChanges {frame : Bybit.Frame} {ds : List Delta}
    (h : (bybit frame).levelChanges = some ds) :
    ∃ u n, u.deltas = ds ∧ (bybit frame).seqRange = some (n, n) ∧
      (∀ d ∈ ds, d.seq = n ∧ d.price ≠ "") ∧
      ∀ tsLocal, (bybit frame).ticks tsLocal = Bybit.updateTicks u tsLocal := by
  simp only [levelChanges] at h
  split at h
  · next htopic =>
      cases hp : Bybit.parseL2Update frame.topic frame.ts frame.data with
      | error text => rw [hp] at h; cases h
      | ok u =>
          rw [hp] at h
          obtain rfl := Option.some.inj h
          obtain ⟨d, hd, hall⟩ := Bybit.of_parseL2Update hp
          refine ⟨u, d.u, rfl, by simp [seqRange, hd], hall, fun tsLocal => ?_⟩
          simp only [ticks, Bybit.onMsg, htopic, hp, if_true]
  · cases h

/-- The ticks of an order-book message carry its level changes, in the listed order. -/
theorem map_delta_ticks {m : MarketMessage} {ds : List Delta} (h : m.levelChanges = some ds)
    (tsLocal : Int64) : (m.ticks tsLocal).map Tick.delta = ds := by
  cases m with
  | kucoin msg =>
      obtain ⟨u, rfl, -, ht⟩ := kucoin_of_levelChanges h
      rw [ht, Kucoin.map_delta_updateTicks]
  | bybit frame =>
      obtain ⟨u, n, rfl, -, -, ht⟩ := bybit_of_levelChanges h
      rw [ht, Bybit.map_delta_updateTicks]

theorem type_of_mem_ticks {m : MarketMessage} {ds : List Delta} (h : m.levelChanges = some ds)
    {tsLocal : Int64} {t : Tick} (ht : t ∈ m.ticks tsLocal) : t.type = .update := by
  cases m with
  | kucoin msg =>
      obtain ⟨u, -, -, hticks⟩ := kucoin_of_levelChanges h
      exact Kucoin.type_of_mem_updateTicks (hticks tsLocal ▸ ht)
  | bybit frame =>
      obtain ⟨u, n, -, -, -, hticks⟩ := bybit_of_levelChanges h
      exact Bybit.type_of_mem_updateTicks (hticks tsLocal ▸ ht)

/-- The changes of a Bybit message rise only when there is at most one: they share a sequence. -/
theorem bybit_rising_iff {frame : Bybit.Frame} {ds : List Delta}
    (h : (bybit frame).levelChanges = some ds) :
    ((OrderBook.priced ds).map Delta.seq).Pairwise (· < ·) ↔ ds.length ≤ 1 := by
  obtain ⟨u, n, -, -, hn, -⟩ := bybit_of_levelChanges h
  have hpriced : OrderBook.priced ds = ds :=
    List.filter_eq_self.mpr fun d hd => by simpa using (hn d hd).2
  rw [hpriced]
  match ds, hn with
  | [], _ => simp
  | [d], _ => simp
  | d :: d' :: rest, hn =>
      have hd : d.seq = n := (hn d (by simp)).1
      have hd' : d'.seq = n := (hn d' (by simp)).1
      simp [hd, hd', UInt64.lt_irrefl]

end MarketMessage

end MagnumOpus.Aggregator
