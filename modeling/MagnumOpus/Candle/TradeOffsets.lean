import MagnumOpus.Candle.CascadeWindows
import MagnumOpus.Candle.ParallelBars

/-! # Where the trades of a row lie

A row says how long after its start the first and the last of its trades were. The rows of a second
are labelled with the second that they were finished in, those of a minute and of a quarter of an
hour with the time at which the timeframe began.

* **The hope.** `Coherent`: the offsets of a row are the distances of its trades from the row's own
  label, in order, and smaller than the length of the bar.
* **Why it fails.** All rows take the offsets from the second in which they are finished, and the
  label is put on afterwards; and the first trade to arrive need not be the earliest.
* **When it holds.** Exactly when the trades arrive in order, and, where the label is another second
  than the last one of the bar, lie at the label itself (`coherent_iff`). -/

namespace MagnumOpus.Candle

open EventMachine Cascade UtcTime

/-- The rows that a consumer writes. -/
inductive Frame where
  | second
  | parallel (p : ParallelTF)
deriving DecidableEq

theorem Frame.forall_iff {P : Frame → Prop} :
    (∀ fr, P fr) ↔ P .second ∧ P (.parallel .tf1m) ∧ P (.parallel .tf15m) := by
  constructor
  · exact fun h => ⟨h _, h _, h _⟩
  · rintro ⟨hsecond, h1m, h15m⟩ fr
    cases fr with
    | second => exact hsecond
    | parallel p =>
        cases p with
        | tf1m => exact h1m
        | tf15m => exact h15m

instance Frame.decidableForall {P : Frame → Prop} [DecidablePred P] : Decidable (∀ fr, P fr) :=
  decidable_of_iff _ Frame.forall_iff.symm

/-- The length of a bar. -/
def Frame.lengthMs : Frame → ℤ
  | .second => 1000
  | .parallel p => p.tf.seconds * 1000

/-- The label of a row that is finished in a second. -/
def Frame.openMs (tsSecMs : Int64) : Frame → Int64
  | .second => tsSecMs
  | .parallel p => Int64.ofInt (truncate p.tf.seconds (unixSec tsSecMs) * 1000)

/-- The trades of a bar so far. -/
def AccWriter.tradesOf (aw : AccWriter) : Frame → Trades
  | .second => aw.acc.trades
  | .parallel p => (aw.parallel p).trades

/-- The row of an output. -/
def Output.rowOf : Frame → Output → Option Bar
  | _, .applied _ => none
  | .second, .flushed f => some f.row
  | .parallel p, .flushed f => f.parallel p
  | .second, .final row _ _ => row
  | .parallel .tf1m, .final _ bar1m _ => bar1m
  | .parallel .tf15m, .final _ _ bar15m => bar15m

theorem rowOf_flushed (f : Flushed) (p : ParallelTF) :
    [Output.flushed f].filterMap (Output.rowOf (.parallel p)) = (f.parallel p).toList := by
  have hrow : Output.rowOf (.parallel p) (.flushed f) = f.parallel p := rfl
  rw [List.filterMap_cons, List.filterMap_nil, hrow]
  cases f.parallel p with
  | none => rfl
  | some b => rfl

/-! ### Labels -/

theorem seconds_pos (p : ParallelTF) : 0 < p.tf.seconds := by
  cases p <;> decide

/-- Close to the least machine integer a second wraps around. -/
theorem bmod_second {now : ℤ} (hlo : -2 ^ 63 ≤ now) (hhi : now < 2 ^ 63) :
    (now / 1000 * 1000).bmod (2 ^ 64) =
      if -2 ^ 63 ≤ now / 1000 * 1000 then now / 1000 * 1000 else now / 1000 * 1000 + 2 ^ 64 := by
  rw [Int.bmod_def]
  split <;> split <;> omega

/-- What is left of a second when its full milliseconds are taken away. -/
theorem toInt_truncateSecond (nowMs : Int64) :
    0 ≤ (truncateSecond nowMs).toInt - unixSec (truncateSecond nowMs) * 1000 ∧
      (truncateSecond nowMs).toInt - unixSec (truncateSecond nowMs) * 1000 < 1000 := by
  have hlo := nowMs.le_toInt
  have hhi := nowMs.toInt_lt
  have hsec : (truncateSecond nowMs).toInt = (nowMs.toInt / 1000 * 1000).bmod (2 ^ 64) :=
    Int64.toInt_ofInt
  have hq : -2 ^ 63 - 1000 ≤ nowMs.toInt / 1000 * 1000 := by omega
  rw [Windows.unixSec_eq_tdiv, Windows.tdiv_thousand, hsec, bmod_second hlo hhi]
  generalize nowMs.toInt / 1000 = q at hq ⊢
  by_cases hwrap : -2 ^ 63 ≤ q * 1000
  · rw [if_pos hwrap]
    split <;> omega
  · rw [if_neg hwrap, if_pos (by omega)]
    omega

/-- The second in which a row is finished lies inside the bar. -/
theorem Frame.openMs_eq (fr : Frame) (nowMs : Int64) : ∃ k : ℤ, 0 ≤ k ∧ k < fr.lengthMs ∧
    fr.openMs (truncateSecond nowMs) = truncateSecond nowMs - Int64.ofInt k := by
  obtain ⟨hlo, hhi⟩ := toInt_truncateSecond nowMs
  cases fr with
  | second =>
      refine ⟨0, le_refl 0, by decide, ?_⟩
      exact (Int64.sub_zero _).symm
  | parallel p =>
      have hd := seconds_pos p
      set sec := truncateSecond nowMs
      have hmod := Int.emod_nonneg (unixSec sec - zeroTime) hd.ne'
      have hmodlt := Int.emod_lt_of_pos (unixSec sec - zeroTime) hd
      refine ⟨sec.toInt - truncate p.tf.seconds (unixSec sec) * 1000, ?_, ?_, ?_⟩
      · unfold truncate
        omega
      · show sec.toInt - truncate p.tf.seconds (unixSec sec) * 1000 < p.tf.seconds * 1000
        unfold truncate
        omega
      · rw [Int64.ofInt_sub, Int64.ofInt_toInt]
        show Int64.ofInt _ = sec - (sec - Int64.ofInt _)
        grind

/-! ### Offsets -/

/-- The distance of a time from a second; a time before it counts as nothing. -/
def offsetFrom (tsSecMs ts : Int64) : Int64 := if ts - tsSecMs < 0 then 0 else ts - tsSecMs

/-- The time lies inside the bar that begins with the label. -/
def Frame.Holds (fr : Frame) (openMs ts : Int64) : Prop :=
  openMs.toInt ≤ ts.toInt ∧ ts.toInt < openMs.toInt + fr.lengthMs

instance (fr : Frame) (openMs ts : Int64) : Decidable (fr.Holds openMs ts) :=
  inferInstanceAs (Decidable (_ ∧ _))

theorem Frame.lengthMs_le (fr : Frame) : fr.lengthMs ≤ 900000 := by
  cases fr with
  | second => decide
  | parallel p => cases p <;> decide

theorem toInt_ofInt_small {k : ℤ} (hk : 0 ≤ k) (hlt : k < 900000) : (Int64.ofInt k).toInt = k :=
  Int64.toInt_ofInt_of_le (by omega) (by omega)

/-- An offset is taken from the second that the row is finished in. -/
theorem toInt_offsetFrom {fr : Frame} {openMs tsSecMs ts : Int64} {k : ℤ} (hk : 0 ≤ k)
    (hlt : k < fr.lengthMs) (hopen : openMs = tsSecMs - Int64.ofInt k)
    (hts : fr.Holds openMs ts) :
    (offsetFrom tsSecMs ts).toInt = max 0 (ts.toInt - openMs.toInt - k) := by
  have hlength := fr.lengthMs_le
  obtain ⟨hlo, hhi⟩ := hts
  have hsplit : ts - tsSecMs = ts - openMs - Int64.ofInt k := by
    rw [hopen]
    grind
  have hfrom : (ts - openMs).toInt = ts.toInt - openMs.toInt := by
    rw [Int64.toInt_sub, Int.bmod_eq_of_le (by omega) (by omega)]
  have hdiff : (ts - tsSecMs).toInt = ts.toInt - openMs.toInt - k := by
    rw [hsplit, Int64.toInt_sub, hfrom, toInt_ofInt_small hk (by omega),
      Int.bmod_eq_of_le (by omega) (by omega)]
  have hzero : (0 : Int64).toInt = 0 := rfl
  unfold offsetFrom
  by_cases hneg : ts - tsSecMs < 0
  · have hlt := Int64.lt_iff_toInt_lt.mp hneg
    rw [if_pos hneg, hzero]
    omega
  · have hge : ¬ (ts - tsSecMs).toInt < (0 : Int64).toInt := fun h =>
      hneg (Int64.lt_iff_toInt_lt.mpr h)
    rw [if_neg hneg, hdiff]
    omega

/-- The row says where its first and its last trade lie. -/
def Located (fr : Frame) (b : Bar) (first last : Int64) : Prop :=
  ∃ o ∈ b.firstTradeOffsetMs, ∃ o' ∈ b.lastTradeOffsetMs, o.toInt = first.toInt - b.tsSecMs.toInt ∧
    o'.toInt = last.toInt - b.tsSecMs.toInt ∧ o ≤ o' ∧ o.toInt < fr.lengthMs ∧
      o'.toInt < fr.lengthMs

instance (fr : Frame) (b : Bar) (first last : Int64) : Decidable (Located fr b first last) :=
  inferInstanceAs (Decidable (∃ o ∈ b.firstTradeOffsetMs, ∃ o' ∈ b.lastTradeOffsetMs, _))

/-- The trades arrive in order, and lie at the label unless the label is the second in which the
row is finished. -/
def Frame.InPlace (fr : Frame) (tsSecMs first last : Int64) : Prop :=
  first ≤ last ∧
    (fr.openMs tsSecMs = tsSecMs ∨ first = fr.openMs tsSecMs ∧ last = fr.openMs tsSecMs)

instance (fr : Frame) (tsSecMs first last : Int64) : Decidable (fr.InPlace tsSecMs first last) :=
  inferInstanceAs (Decidable (_ ∧ _))

/-- The row of a bar with these trades. -/
structure IsRowOf (fr : Frame) (tsSecMs first last : Int64) (b : Bar) : Prop where
  label : b.tsSecMs = fr.openMs tsSecMs
  first : b.firstTradeOffsetMs = some (offsetFrom tsSecMs first)
  last : b.lastTradeOffsetMs = some (offsetFrom tsSecMs last)

theorem located_iff {fr : Frame} {nowMs first last : Int64} {b : Bar}
    (hb : IsRowOf fr (truncateSecond nowMs) first last b) (hfirst : fr.Holds b.tsSecMs first)
    (hlast : fr.Holds b.tsSecMs last) :
    Located fr b first last ↔ fr.InPlace (truncateSecond nowMs) first last := by
  obtain ⟨k, hk, hlt, hopen⟩ := fr.openMs_eq nowMs
  have hlength := fr.lengthMs_le
  rw [← hb.label] at hopen
  have ho := toInt_offsetFrom hk hlt hopen hfirst
  have ho' := toInt_offsetFrom hk hlt hopen hlast
  have hat : b.tsSecMs = truncateSecond nowMs ↔ k = 0 := by
    constructor
    · intro heq
      rw [heq] at hopen
      have hzero : Int64.ofInt k = 0 := by grind
      rw [← toInt_ofInt_small hk (by omega), hzero]
      rfl
    · rintro rfl
      rw [hopen]
      exact Int64.sub_zero _
  unfold Located Frame.InPlace
  rw [← hb.label, hat, ← Int64.toInt_inj (x := first), ← Int64.toInt_inj (x := last),
    Int64.le_iff_toInt_le]
  obtain ⟨hlo, hhi⟩ := hfirst
  obtain ⟨hlo', hhi'⟩ := hlast
  constructor
  · rintro ⟨o, hbo, o', hbo', hdist, hdist', hle, -, -⟩
    rw [hb.first, Option.mem_some_iff] at hbo
    rw [hb.last, Option.mem_some_iff] at hbo'
    rw [← hbo] at hdist hle
    rw [← hbo'] at hdist' hle
    rw [Int64.le_iff_toInt_le] at hle
    omega
  · rintro ⟨hle, hcase⟩
    refine ⟨_, hb.first, _, hb.last, ?_⟩
    rw [Int64.le_iff_toInt_le]
    omega

/-! ### Rows -/

/-- The times of the trades are those of the first and of the last one. -/
structure Stamped (t : Trades) : Prop where
  count : t.tradeCount = t.tradeTimestamps.length
  first : ∀ ts ∈ t.tradeTimestamps.head?, t.firstTradeTsMs = ts
  last : ∀ ts ∈ t.tradeTimestamps.getLast?, t.lastTradeTsMs = ts

theorem stamped_new : Stamped {} where
  count := rfl
  first := fun ts hts => by cases hts
  last := fun ts hts => by cases hts

theorem Stamped.applyTrade {t : Trades} (h : Stamped t) (price : String) (p s : ℚ) (side : String)
    (tsMs : Int64) (mid : Option ℚ) :
    Stamped (Accumulator.applyTrade t price p s side tsMs mid) where
  count := by
    show t.tradeCount + 1 = (t.tradeTimestamps ++ [tsMs]).length
    rw [h.count, List.length_append, List.length_singleton]
  first := by
    have hfirst : (Accumulator.applyTrade t price p s side tsMs mid).firstTradeTsMs =
        if t.tradeCount = 0 then tsMs else t.firstTradeTsMs := by
      simp [Accumulator.applyTrade]
    intro ts hts
    rw [hfirst, h.count]
    have hts' : ts ∈ (t.tradeTimestamps ++ [tsMs]).head? := hts
    cases htimes : t.tradeTimestamps with
    | nil =>
        rw [htimes] at hts'
        exact Option.mem_some_iff.mp hts'
    | cons ts' times =>
        rw [htimes] at hts'
        rw [if_neg (List.length_pos_of_ne_nil (List.cons_ne_nil ts' times)).ne']
        exact h.first ts (by rw [htimes]; exact hts')
  last := by
    intro ts hts
    have hts' : ts ∈ (t.tradeTimestamps ++ [tsMs]).getLast? := hts
    rw [List.getLast?_concat] at hts'
    exact Option.mem_some_iff.mp hts'

/-- The row of an accumulator with these trades. -/
structure IsBarOf (fr : Frame) (tsSecMs : Int64) (t : Trades) (b : Bar) : Prop where
  label : b.tsSecMs = fr.openMs tsSecMs
  first : b.firstTradeOffsetMs =
    if 0 < t.tradeCount then some (offsetFrom tsSecMs t.firstTradeTsMs) else none
  last : b.lastTradeOffsetMs =
    if 0 < t.tradeCount then some (offsetFrom tsSecMs t.lastTradeTsMs) else none

theorem IsBarOf.isRowOf {fr : Frame} {tsSecMs first last : Int64} {t : Trades} {b : Bar}
    (hb : IsBarOf fr tsSecMs t b) (h : Stamped t) (hfirst : first ∈ t.tradeTimestamps.head?)
    (hlast : last ∈ t.tradeTimestamps.getLast?) : IsRowOf fr tsSecMs first last b := by
  have hpos : 0 < t.tradeCount := by
    rw [h.count]
    exact List.length_pos_of_mem (List.mem_of_head? hfirst)
  constructor
  case label => exact hb.label
  case first => rw [hb.first, if_pos hpos, h.first first hfirst]
  case last => rw [hb.last, if_pos hpos, h.last last hlast]

namespace Consumer

/-- The second in which an event finishes the row of a parallel bar. -/
def parallelAt (c : Consumer) (p : ParallelTF) : Event → Option Int64
  | .barClose calls nowMs =>
      if c.exited = false ∧ calls.writeBar ∧ isBarClose (truncateSecond nowMs) p.tf then
        some (truncateSecond nowMs)
      else none
  | .shutdown _ nowMs =>
      if c.down = false ∧ 0 < (c.aw.parallel p).trades.tradeCount then some (truncateSecond nowMs)
      else none
  | .message _ _ _ => none
  | .partialPublish => none

/-- The second in which an event finishes a row. -/
def frameAt (c : Consumer) (ev : Event) : Frame → Option Int64
  | .second => c.writesAt ev
  | .parallel p => c.parallelAt p ev

/-- The rows of an event, and what they are made of. -/
inductive Written (c : Consumer) (ev : Event) (fr : Frame) : List Bar → Prop
  | none (hat : c.frameAt ev fr = none) : Written c ev fr []
  | one {b : Bar} (nowMs : Int64) (hat : c.frameAt ev fr = some (truncateSecond nowMs))
      (hb : IsBarOf fr (truncateSecond nowMs) (c.aw.tradesOf fr) b) : Written c ev fr [b]

variable {c : Consumer}

theorem isBarOf_flush {aw : AccWriter} {isPartial : Bool} {nowMs : Int64} {f : Flushed}
    (hf : (aw.flush isPartial nowMs true).2 = some f) :
    IsBarOf .second (truncateSecond nowMs) aw.acc.trades f.row := by
  obtain ⟨cumDelta, cvdDivergence, hbar⟩ := AccWriter.addCumDelta_snd
    { aw with acc := aw.acc.seedFromLastKnown } isPartial
    (aw.acc.seedFromLastKnown.currentBar (truncateSecond nowMs) isPartial)
  have hrow : f.row = (AccWriter.addCumDelta { aw with acc := aw.acc.seedFromLastKnown } isPartial
      (aw.acc.seedFromLastKnown.currentBar (truncateSecond nowMs) isPartial)).2 := by
    cases isPartial with
    | false => rw [← Option.some.inj hf]
    | true => rw [← Option.some.inj hf]
  have htrades := AccWriter.trades_seedFromLastKnown aw.acc
  rw [hrow, hbar]
  constructor
  case label => rfl
  case first =>
    rw [← htrades]
    rfl
  case last =>
    rw [← htrades]
    rfl

theorem isBarOf_flushTF (a : BarAccumulator) {p : ParallelTF} {tsSecMs : Int64}
    (h : isBarClose tsSecMs p.tf = true) : ∃ b, (AccWriter.flushTF a p.tf tsSecMs).2 = some b ∧
      IsBarOf (.parallel p) tsSecMs a.trades b := by
  have htrades := AccWriter.trades_seedFromLastKnown a
  unfold AccWriter.flushTF
  rw [if_pos h]
  refine ⟨_, rfl, rfl, ?_, ?_⟩
  · rw [← htrades]
    rfl
  · rw [← htrades]
    rfl

section Step

variable {N : Numerics} {bestQuote : OrderBook → BestQuote}

theorem written_shutdown (calls : Calls) (nowMs : Int64) (hup : c.down = false) (fr : Frame) :
    Written c (.shutdown calls nowMs) fr
      ((c.shutdown calls nowMs).2.filterMap (Output.rowOf fr)) := by
  cases fr with
  | second =>
      cases hw : calls.writeBar with
      | true =>
          have hat : c.frameAt (.shutdown calls nowMs) .second = some (truncateSecond nowMs) :=
            if_pos ⟨hup, hw⟩
          have hrows : (c.shutdown calls nowMs).2.filterMap (Output.rowOf .second) =
              [c.aw.acc.currentBar (truncateSecond nowMs) true] := by
            simp [shutdown, hw, Output.rowOf]
          rw [hrows]
          exact .one nowMs hat ⟨rfl, rfl, rfl⟩
      | false =>
          have hat : c.frameAt (.shutdown calls nowMs) .second = none := by
            refine if_neg ?_
            rw [hw]
            exact fun h => Bool.noConfusion h.2
          have hrows : (c.shutdown calls nowMs).2.filterMap (Output.rowOf .second) = [] := by
            simp [shutdown, hw, Output.rowOf]
          rw [hrows]
          exact .none hat
  | parallel p =>
      by_cases hpos : 0 < (c.aw.parallel p).trades.tradeCount
      · have hat : c.frameAt (.shutdown calls nowMs) (.parallel p) =
            some (truncateSecond nowMs) := if_pos ⟨hup, hpos⟩
        have hrows : (c.shutdown calls nowMs).2.filterMap (Output.rowOf (.parallel p)) =
            [{ (c.aw.parallel p).currentBar (truncateSecond nowMs) true with
              tsSecMs := (Frame.parallel p).openMs (truncateSecond nowMs) }] := by
          cases p with
          | tf1m => simp [shutdown, Output.rowOf, BarAccumulator.currentBar, hpos, Frame.openMs]
          | tf15m => simp [shutdown, Output.rowOf, BarAccumulator.currentBar, hpos, Frame.openMs]
        rw [hrows]
        exact .one nowMs hat ⟨rfl, rfl, rfl⟩
      · have hat : c.frameAt (.shutdown calls nowMs) (.parallel p) = none :=
          if_neg fun h => hpos h.2
        have hrows : (c.shutdown calls nowMs).2.filterMap (Output.rowOf (.parallel p)) = [] := by
          cases p with
          | tf1m => simp [shutdown, Output.rowOf, BarAccumulator.currentBar, hpos]
          | tf15m => simp [shutdown, Output.rowOf, BarAccumulator.currentBar, hpos]
        rw [hrows]
        exact .none hat

theorem written_barClose (hstarted : c.aw.Started) (calls : Calls) (nowMs : Int64)
    (hrun : c.exited = false) (fr : Frame) :
    Written c (.barClose calls nowMs) fr
      ((c.handleBarClose calls nowMs).2.filterMap (Output.rowOf fr)) := by
  simp only [handleBarClose]
  cases hw : calls.writeBar with
  | true =>
      obtain ⟨f, hf, -, -, -, hparallel⟩ := AccWriter.flush_full hstarted.acc nowMs
      rw [hf]
      cases fr with
      | second => exact .one nowMs (if_pos ⟨hrun, hw⟩) (isBarOf_flush hf)
      | parallel p =>
          show Written c _ _ ([Output.flushed f].filterMap (Output.rowOf (.parallel p)))
          rw [rowOf_flushed, (hparallel p).2]
          cases hc : isBarClose (truncateSecond nowMs) p.tf with
          | true =>
              obtain ⟨b, hb, hbar⟩ := isBarOf_flushTF (c.aw.parallel p) hc
              rw [hb]
              exact .one nowMs (if_pos ⟨hrun, hw, hc⟩) hbar
          | false =>
              rw [AccWriter.flushTF, hc, if_neg Bool.false_ne_true]
              refine .none (if_neg ?_)
              rw [hc]
              exact fun h => Bool.noConfusion h.2.2
  | false =>
      obtain ⟨hnone, -⟩ := c.aw.flush_rejected false nowMs
      rw [hnone]
      have hat : c.frameAt (.barClose calls nowMs) fr = none := by
        cases fr with
        | second =>
            refine if_neg ?_
            rw [hw]
            exact fun h => Bool.noConfusion h.2
        | parallel p =>
            refine if_neg ?_
            rw [hw]
            exact fun h => Bool.noConfusion h.2.1
      exact .none hat

theorem written_step (hstarted : c.aw.Started) (ev : Event) (fr : Frame) :
    Written c ev fr ((step N bestQuote c ev).2.filterMap (Output.rowOf fr)) := by
  cases ev with
  | message m calls nowMs =>
      have hstep := stepped_step N bestQuote c (.message m calls nowMs)
      generalize (step N bestQuote c (.message m calls nowMs)).1 = c' at hstep
      generalize (step N bestQuote c (.message m calls nowMs)).2 = outs at hstep ⊢
      cases hstep with
      | quiet _ hwrites _ _ =>
          cases fr with
          | second => exact .none hwrites
          | parallel p => exact .none rfl
      | tick t _ _ _ hwrites _ _ =>
          cases fr with
          | second => exact .none hwrites
          | parallel p => exact .none rfl
      | barClose _ hev _ _ _ _ => exact Event.noConfusion hev
      | snapshot now hsnapshot hwrites _ hf _ =>
          cases fr with
          | second => exact .one now hwrites (isBarOf_flush hf)
          | parallel p =>
              obtain ⟨f', hf', -, -, hparallel, -, -⟩ := AccWriter.flush_partial hstarted.acc now
              rw [hf] at hf'
              rw [← Option.some.inj hf'] at hparallel
              rw [rowOf_flushed, hparallel p]
              exact .none rfl
      | snapshotOnly _ hwrites _ _ _ =>
          cases fr with
          | second => exact .none hwrites
          | parallel p => exact .none rfl
      | shutdown _ hev _ _ _ _ _ _ => exact Event.noConfusion hev
  | barClose calls nowMs =>
      rw [step]
      split
      next hexited =>
        have hat : c.frameAt (.barClose calls nowMs) fr = none := by
          cases fr with
          | second =>
              refine if_neg ?_
              rw [hexited]
              exact fun h => Bool.noConfusion h.1
          | parallel p =>
              refine if_neg ?_
              rw [hexited]
              exact fun h => Bool.noConfusion h.1
        exact .none hat
      next hrun => exact written_barClose hstarted calls nowMs (Bool.eq_false_iff.mpr hrun) fr
  | partialPublish =>
      rw [step]
      cases fr with
      | second => split <;> exact .none rfl
      | parallel p => split <;> exact .none rfl
  | shutdown calls nowMs =>
      rw [step]
      split
      next hdown =>
        have hat : c.frameAt (.shutdown calls nowMs) fr = none := by
          cases fr with
          | second =>
              refine if_neg ?_
              rw [hdown]
              exact fun h => Bool.noConfusion h.1
          | parallel p =>
              refine if_neg ?_
              rw [hdown]
              exact fun h => Bool.noConfusion h.1
        exact .none hat
      next hup => exact written_shutdown calls nowMs (Bool.eq_false_iff.mpr hup) fr

/-! ### Runs -/

theorem stamped_apply {a : BarAccumulator} (h : Stamped a.trades) (price size : String)
    (isTrade : Bool) (side : String) (tsMs : Int64) (prev curr : BestQuote) :
    Stamped (a.apply N price size isTrade side tsMs prev curr).trades := by
  unfold BarAccumulator.apply Accumulator.apply
  cases isTrade with
  | false => exact h
  | true =>
      cases hps : Accumulator.parseTrade N price size with
      | none => exact h
      | some ps => exact h.applyTrade _ _ _ _ _ _

/-- The trades of all accumulators are stamped. -/
structure Inv (c : Consumer) : Prop where
  started : c.aw.Started
  stamped : ∀ fr, Stamped (c.aw.tradesOf fr)

theorem stamped_reset (aw : AccWriter) (fr : Frame) : Stamped (aw.reset.tradesOf fr) := by
  cases fr with
  | second => exact stamped_new
  | parallel p => cases p <;> exact stamped_new

theorem Inv.step (h : Inv c) (ev : Event) : Inv (step N bestQuote c ev).1 := by
  have hstep := stepped_step N bestQuote c ev
  generalize (Consumer.step N bestQuote c ev).1 = c' at hstep ⊢
  generalize (Consumer.step N bestQuote c ev).2 = outs at hstep
  refine ⟨hstep.started h.started, fun fr => ?_⟩
  have hfr := h.stamped fr
  cases hstep with
  | quiet _ _ _ haw =>
      cases fr with
      | second =>
          show Stamped c'.aw.acc.trades
          rw [haw.acc]
          exact hfr
      | parallel p =>
          show Stamped (c'.aw.parallel p).trades
          rw [haw.parallel p]
          exact hfr
  | tick t prev curr _ _ _ haw =>
      rw [haw]
      cases fr with
      | second => exact stamped_apply hfr _ _ _ _ _ _ _
      | parallel p => cases p <;> exact stamped_apply hfr _ _ _ _ _ _ _
  | barClose nowMs _ _ _ _ haw =>
      obtain ⟨f, -, hcleared, -, -, hparallel⟩ := AccWriter.flush_full h.started.acc nowMs
      rw [haw] at hcleared hparallel
      cases fr with
      | second =>
          show Stamped c'.aw.acc.trades
          rw [hcleared.acc]
          exact stamped_new
      | parallel p =>
          show Stamped (c'.aw.parallel p).trades
          rw [(hparallel p).1]
          unfold AccWriter.flushTF
          split
          · exact stamped_new
          · exact hfr
  | snapshot _ _ _ _ _ haw =>
      rw [haw]
      exact stamped_reset _ fr
  | snapshotOnly _ _ _ _ haw =>
      rw [haw]
      exact stamped_reset _ fr
  | shutdown _ _ _ _ _ _ _ haw =>
      rw [haw]
      exact hfr

theorem inv_new (exchange symbol : String) (coldBufSize : ℕ) :
    Inv (.new exchange symbol coldBufSize) where
  started := AccWriter.started_new exchange symbol
  stamped := fun fr => by
    cases fr with
    | second => exact stamped_new
    | parallel p => cases p <;> exact stamped_new

end Step

section Run

variable (N : Numerics) (bestQuote : OrderBook → BestQuote)

/-- The rows of a frame that a step writes. -/
def rows (c : Consumer) (ev : Event) (fr : Frame) : List Bar :=
  (step N bestQuote c ev).2.filterMap (Output.rowOf fr)

/-- The times of the trades of a bar so far. -/
def times (c : Consumer) (fr : Frame) : List Int64 := (c.aw.tradesOf fr).tradeTimestamps

/-- The trades of every row lie inside it. -/
def Inside (c : Consumer) (ev : Event) : Prop :=
  ∀ fr, ∀ b ∈ rows N bestQuote c ev fr, ∀ ts ∈ c.times fr, fr.Holds b.tsSecMs ts

/-- Every row says where its first and its last trade lie. -/
def Coherent (c : Consumer) (ev : Event) : Prop :=
  ∀ fr, ∀ b ∈ rows N bestQuote c ev fr, ∀ first ∈ (c.times fr).head?,
    ∀ last ∈ (c.times fr).getLast?, Located fr b first last

/-- The trades of every row that is due are in place. -/
def InPlace (c : Consumer) (ev : Event) : Prop :=
  ∀ fr, ∀ tsSecMs ∈ c.frameAt ev fr, ∀ first ∈ (c.times fr).head?,
    ∀ last ∈ (c.times fr).getLast?, fr.InPlace tsSecMs first last

-- The lists are searched, not the type of the times.
instance : DecidableRel (Inside N bestQuote) := fun _ _ =>
  @Frame.decidableForall _ fun _ =>
    @List.decidableBAll _ _ (fun _ => List.decidableBAll _ _) _

instance : DecidableRel (Coherent N bestQuote) := fun _ _ =>
  @Frame.decidableForall _ fun _ =>
    @List.decidableBAll _ _ (fun _ => @Option.decidableForallMem _ _
      (fun _ => Option.decidableForallMem _) _) _

instance : DecidableRel InPlace := fun _ _ =>
  @Frame.decidableForall _ fun _ =>
    @Option.decidableForallMem _ _ (fun _ => @Option.decidableForallMem _ _
      (fun _ => Option.decidableForallMem _) _) _

variable {N bestQuote} {c : Consumer}

theorem coherent_step_iff (h : Inv c) {ev : Event} (hinside : Inside N bestQuote c ev) :
    Coherent N bestQuote c ev ↔ InPlace c ev := by
  refine forall_congr' fun fr => ?_
  have hwritten : Written c ev fr (rows N bestQuote c ev fr) := written_step h.started ev fr
  have hin := hinside fr
  generalize rows N bestQuote c ev fr = bs at hwritten hin ⊢
  cases hwritten with
  | none hat =>
      rw [hat]
      exact iff_of_true (fun b hb => absurd hb List.not_mem_nil) fun sec hsec => by cases hsec
  | @one b nowMs hat hb =>
      rw [hat, List.forall_mem_singleton]
      have hts : ∀ ts ∈ c.times fr, fr.Holds b.tsSecMs ts := hin b (List.mem_singleton_self b)
      have hlocated : ∀ first ∈ (c.times fr).head?, ∀ last ∈ (c.times fr).getLast?,
          (Located fr b first last ↔ fr.InPlace (truncateSecond nowMs) first last) :=
        fun first hfirst last hlast =>
          located_iff (hb.isRowOf (h.stamped fr) hfirst hlast)
            (hts first (List.mem_of_head? hfirst)) (hts last (List.mem_of_getLast? hlast))
      constructor
      · intro hcoherent sec hsec first hfirst last hlast
        rw [← Option.mem_some_iff.mp hsec]
        exact (hlocated first hfirst last hlast).mp (hcoherent first hfirst last hlast)
      · intro hplace first hfirst last hlast
        exact (hlocated first hfirst last hlast).mpr
          (hplace _ rfl first hfirst last hlast)

/-- **In every run in which the trades of each row lie inside it, every row says where its first and
its last trade lie, exactly when the trades of all rows are in place.** -/
theorem coherent_iff (N : Numerics) (bestQuote : OrderBook → BestQuote) (exchange symbol : String)
    (coldBufSize : ℕ) (es : List Event)
    (hinside : Along (step N bestQuote) (Inside N bestQuote) (new exchange symbol coldBufSize) es) :
    Along (step N bestQuote) (Coherent N bestQuote) (new exchange symbol coldBufSize) es ↔
      Along (step N bestQuote) InPlace (new exchange symbol coldBufSize) es := by
  have hinv := inv_new exchange symbol coldBufSize
  constructor
  · intro h
    exact along_of_invariant (I := Inv)
      (fun c ev hc hok => ⟨(coherent_step_iff hc hok.1).mp hok.2, hc.step ev⟩) es hinv
      (hinside.and h)
  · intro h
    exact along_of_invariant (I := Inv)
      (fun c ev hc hok => ⟨(coherent_step_iff hc hok.1).mpr hok.2, hc.step ev⟩) es hinv
      (hinside.and h)

end Run

/-- A trade with its time, and when it arrives. -/
def tradeAt (id tsExchange : String) (nowMs : Int64) : Event :=
  .message ⟨id, [("type", "tick"), ("event_type", "trade"), ("ts_exchange", tsExchange),
    ("price", "7"), ("size", "3")]⟩ {} nowMs

/-- A trade at the very beginning of a minute. -/
theorem coherent_at_open :
    Along (step ⟨FloatText.fraction.parse, fun _ => 1, fun _ => 0⟩ fun _ => ⟨"", "", "", ""⟩)
      (Coherent ⟨FloatText.fraction.parse, fun _ => 1, fun _ => 0⟩ fun _ => ⟨"", "", "", ""⟩)
      (new "bybit" "BTC-USDT" 10)
      [tradeAt "1" "0" 100, .barClose {} 900, .barClose {} 59900] :=
  (coherent_iff _ _ _ _ _ _ (by decide +kernel)).mpr (by decide +kernel)

/-- A trade in the last second of a minute: the row of the minute says 200, not 59200. -/
theorem not_coherent_in_minute :
    ¬ ∀ (N : Numerics) (bestQuote : OrderBook → BestQuote) (exchange symbol : String)
      (coldBufSize : ℕ) (es : List Event),
      Along (step N bestQuote) (Inside N bestQuote) (new exchange symbol coldBufSize) es →
      Along (step N bestQuote) (Coherent N bestQuote) (new exchange symbol coldBufSize) es := by
  intro h
  have hcoherent := h ⟨FloatText.fraction.parse, fun _ => 1, fun _ => 0⟩
    (fun _ => ⟨"", "", "", ""⟩) "bybit" "BTC-USDT" 10
    [tradeAt "1" "59200" 59300, .barClose {} 59900] (by decide +kernel)
  revert hcoherent
  decide +kernel

end Consumer

end MagnumOpus.Candle
