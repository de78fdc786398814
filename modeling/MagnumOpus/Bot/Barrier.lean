import MagnumOpus.Bot.StreamEvents
import MagnumOpus.Lib.EventMachine
import MagnumOpus.Lib.KeyedSum
import MagnumOpus.Lib.LatestBy
import Mathlib.Data.List.Sort

/-! # The barrier

`Barrier` (`barrier.py`) collects the bars of several symbols and fires a `MultiBarClose` for each
bucket, when all its symbols have arrived or, with gap markers for those that are missing, at the
timeout.

* **Feeding.** `feed` fires the expired buckets first and then takes up its bar.
* **Memory.** The buckets that were fired last are remembered, and late bars for them are ignored.
  When a bucket is fired, those that are older by more than twice the timeout are forgotten.

Metrics and log lines are left out. -/

namespace MagnumOpus.Bot

open EventMachine KeyedSum

structure MultiBarClose where
  tf : String
  ts : ℤ
  /-- Missing symbols are absent. -/
  closes : Entries String BarClose

namespace Barrier

/-- Milliseconds. -/
def tfMs : String → Option ℤ
  | "1s" => some 1000
  | "1m" => some 60000
  | "5m" => some 300000
  | "15m" => some 900000
  | "1h" => some 3600000
  | "4h" => some 14400000
  | "1d" => some 86400000
  | "1w" => some 604800000
  | _ => none

/-- What a barrier is constructed with: a known timeframe and at least one symbol. -/
structure Config where
  symbols : List String
  tf : String
  width : ℤ
  timeoutMs : ℤ
  symbols_ne : symbols ≠ []
  tfMs_tf : tfMs tf = some width

inductive Output where
  | multiBarClose (m : MultiBarClose)
  | gapMarker (g : GapMarker)

end Barrier

structure Barrier where
  /-- The bars of each bucket, by symbol. -/
  pending : Entries ℤ (Entries String BarClose) := ∅
  /-- When the first bar of a bucket came. -/
  firstArrival : Entries ℤ ℤ := ∅
  fired : Finset ℤ := ∅

namespace Barrier

variable (g : Config)

def bucketTs (bar : BarClose) : ℤ := bar.ts / g.width * g.width

def gapMarker (bucket : ℤ) (symbol : String) : GapMarker where
  exchange := ""
  symbol := symbol
  gapCause := "barrier_timeout"
  ts := bucket

def fireBucket (s : Barrier) (bucket : ℤ) (timedOut : Bool) : Barrier × List Output :=
  let closes := (s.pending.lookup bucket).getD ∅
  let cutoff := bucket - 2 * g.timeoutMs
  let missing := (g.symbols.filter fun symbol => symbol ∉ closes).insertionSort (· ≤ ·)
  ({ pending := s.pending.erase bucket
     firstArrival := s.firstArrival.erase bucket
     fired := insert bucket (s.fired.filter (cutoff ≤ ·)) },
    .multiBarClose ⟨g.tf, bucket, closes⟩ ::
      if timedOut then missing.map fun symbol => .gapMarker (gapMarker bucket symbol) else [])

/-- The buckets whose timeout has elapsed, oldest first. -/
def expired (s : Barrier) (now : ℤ) : List ℤ :=
  ((s.firstArrival.entries.filter fun e => g.timeoutMs ≤ now - e.2).map Sigma.fst).insertionSort
    (· ≤ ·)

/-- Fires one expired bucket after the other. -/
def fireStep : Step Barrier ℤ Output := fun s bucket => fireBucket g s bucket true

def flushExpired (s : Barrier) (now : ℤ) : Barrier × List Output :=
  (final (fireStep g) s (expired g s now), trace (fireStep g) s (expired g s now))

/-- A bar is put under its bucket; the last one of a symbol counts. -/
def hold (s : Barrier) (bar : BarClose) (now : ℤ) : Barrier :=
  let bucket := bucketTs g bar
  { s with
    pending := s.pending.insert bucket
      (((s.pending.lookup bucket).getD ∅).insert bar.symbol bar)
    firstArrival :=
      if bucket ∈ s.pending then s.firstArrival else s.firstArrival.insert bucket now }

/-- All symbols have arrived for the bucket. -/
def complete (s : Barrier) (bucket : ℤ) : Bool :=
  g.symbols.all fun symbol => decide (symbol ∈ (s.pending.lookup bucket).getD ∅)

/-- Takes up a bar, after the expired buckets were fired. -/
def receive (s : Barrier) (bar : BarClose) (now : ℤ) : Barrier × List Output :=
  let bucket := bucketTs g bar
  if bucket ∈ s.fired then (s, [])
  else
    let held := hold g s bar now
    if complete g held bucket then fireBucket g held bucket false else (held, [])

/-- Processes one bar. -/
def feed (s : Barrier) (bar : BarClose) (now : ℤ) : Barrier × List Output :=
  let flushed := flushExpired g s now
  let received := receive g flushed.1 bar now
  (received.1, flushed.2 ++ received.2)

end Barrier

end MagnumOpus.Bot
