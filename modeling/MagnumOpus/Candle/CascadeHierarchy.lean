import Mathlib.Data.List.DropRight
import MagnumOpus.Lib.EventMachine
import MagnumOpus.Candle.Cascade

/-! # The hierarchy of the timeframes

The seven accumulators of an engine know nothing of each other.  Their bars nevertheless form a
hierarchy: whenever a bar closes, the bars of all finer timeframes close with it
(`closes_of_coarser`), and it is the merge of the bars of the next finer timeframe since its own
last close (`closed_isMerge`).

The calls of `fold` on an engine and the bars they returned are its history; the part of it since a
timeframe's last close is `sinceClose`.  Two equations hold of every timeframe after every history:
its accumulator is the sum of the 1s bars in that part (`content_acc`), and the sum of the closed
bars of the next finer timeframe in it and of that timeframe's accumulator (`content_coarse`). -/

namespace MagnumOpus.Candle.Cascade

open EventMachine

/-- A call of `fold`: the 1s bar and the bars that closed with it. -/
structure Folded where
  bar : Candle.Bar
  closed : List Bar

/-- The call that folds a 1s bar, at its own second. -/
def call (e : Engine) (bar : Candle.Bar) : Folded := ⟨bar, (e.fold bar bar.tsSecMs).2⟩

def record : Step Engine Candle.Bar Folded := fun e bar =>
  ((e.fold bar bar.tsSecMs).1, [call e bar])

def Folded.closes (tf : TF) (f : Folded) : Bool := f.closed.any (·.tf = tf)

/-- The calls since the last one that closed the timeframe. -/
def sinceClose (tf : TF) (history : List Folded) : List Folded :=
  history.rtakeWhile fun f => !f.closes tf

/-- The sum of the 1s bars. -/
def secondsContent (calls : List Folded) : Ohlcv ℚ Int64 × Int64 × Int64 :=
  (calls.map fun f => CascadeAcc.secondContent f.bar).sum

/-- The closed bars of a timeframe, in order. -/
def closedBars (tf : TF) (calls : List Folded) : List Bar :=
  calls.flatMap fun f => f.closed.filter (·.tf = tf)

/-- A bar is the merge of bars that follow each other. -/
structure IsMerge (b : Bar) (parts : List Bar) : Prop where
  openTs : parts.head?.map (·.openTs) = some b.openTs
  openPrice : b.openPrice = parts.findSome? (·.openPrice)
  high : b.high = (parts.filterMap (·.high)).max?
  low : b.low = (parts.filterMap (·.low)).min?
  close : b.close = parts.reverse.findSome? (·.close)
  volume : b.volume = (parts.map (·.volume)).sum
  quoteVol : b.quoteVol = (parts.map (·.quoteVol)).sum
  buyVolume : b.buyVolume = (parts.map (·.buyVolume)).sum
  tradeCount : b.tradeCount = (parts.map (·.tradeCount)).sum
  barCount : b.barCount = (parts.map (·.barCount)).sum
  gapCount : b.gapCount = (parts.map (·.gapCount)).sum

/-! ### The part of the history since a close -/

variable {e : Engine} {bar : Candle.Bar} {tf fine : TF} {history : List Folded}

theorem closes_call : (call e bar).closes tf = isBarClose bar.tsSecMs tf := by
  have hiff : (call e bar).closes tf = true ↔ (call e bar).closed.filter (·.tf = tf) ≠ [] := by
    simp [Folded.closes, List.filter_eq_nil_iff]
  rw [Bool.eq_iff_iff, hiff, call, Engine.filter_fold]
  cases isBarClose bar.tsSecMs tf <;> simp

theorem sinceClose_concat_of_close (h : isBarClose bar.tsSecMs tf = true) :
    sinceClose tf (history ++ [call e bar]) = [] := by
  rw [sinceClose, List.rtakeWhile_concat_neg]
  simp [closes_call, h]

theorem sinceClose_concat_of_not_close (h : isBarClose bar.tsSecMs tf = false) :
    sinceClose tf (history ++ [call e bar]) = sinceClose tf history ++ [call e bar] := by
  rw [sinceClose, List.rtakeWhile_concat_pos]
  · rfl
  · simp [closes_call, h]

theorem secondsContent_concat (calls : List Folded) :
    secondsContent (calls ++ [call e bar]) =
      secondsContent calls + CascadeAcc.secondContent bar := by
  simp [secondsContent, call]

theorem closedBars_concat (e : Engine) (bar : Candle.Bar) (calls : List Folded) :
    closedBars tf (calls ++ [call e bar]) = closedBars tf calls ++
      if isBarClose bar.tsSecMs tf then
        [((e.accs tf).fold bar).toBar e.exchange e.symbol tf true] else [] := by
  rw [closedBars, closedBars, List.flatMap_append, List.flatMap_singleton, call, Engine.filter_fold]

/-! ### Accumulators and the history -/

variable {exchange symbol : String}

/-- The engine after the 1s bars. -/
def after (exchange symbol : String) (past : List Candle.Bar) : Engine :=
  final record (.new exchange symbol) past

/-- The calls that took a new engine there. -/
def historyOf (exchange symbol : String) (past : List Candle.Bar) : List Folded :=
  trace record (.new exchange symbol) past

theorem after_concat (past : List Candle.Bar) (bar : Candle.Bar) :
    after exchange symbol (past ++ [bar]) =
      ((after exchange symbol past).fold bar bar.tsSecMs).1 := final_append _ _ _

theorem historyOf_concat (past : List Candle.Bar) (bar : Candle.Bar) :
    historyOf exchange symbol (past ++ [bar]) =
      historyOf exchange symbol past ++ [call (after exchange symbol past) bar] :=
  trace_append _ _ _

/-- An accumulator is the sum of the 1s bars since the last close. -/
theorem content_acc (tf : TF) (past : List Candle.Bar) :
    ((after exchange symbol past).accs tf).content =
      secondsContent (sinceClose tf (historyOf exchange symbol past)) := by
  induction past using List.reverseRecOn with
  | nil => rfl
  | append_singleton past bar ih =>
      rw [after_concat, historyOf_concat]
      cases hc : isBarClose bar.tsSecMs tf with
      | true =>
          rw [Engine.accs_fold_of_close hc, sinceClose_concat_of_close hc]
          rfl
      | false =>
          rw [Engine.accs_fold_of_not_close hc, CascadeAcc.content_fold, ih,
            sinceClose_concat_of_not_close hc, secondsContent_concat]

/-- An accumulator is the sum of the finer closed bars since the last close, and of the finer
accumulator. -/
theorem content_coarse {coarse : TF} (h : coarse.finer = some fine) (past : List Candle.Bar) :
    ((after exchange symbol past).accs coarse).content =
      ((closedBars fine (sinceClose coarse (historyOf exchange symbol past))).map Bar.content).sum +
        ((after exchange symbol past).accs fine).content := by
  induction past using List.reverseRecOn with
  | nil => exact (zero_add _).symm
  | append_singleton past bar ih =>
      rw [after_concat, historyOf_concat]
      cases hc : isBarClose bar.tsSecMs coarse with
      | true =>
          rw [Engine.accs_fold_of_close hc, Engine.accs_fold_of_close (isBarClose_of_finer h hc),
            sinceClose_concat_of_close hc]
          exact (zero_add _).symm
      | false =>
          rw [Engine.accs_fold_of_not_close hc, CascadeAcc.content_fold, ih,
            sinceClose_concat_of_not_close hc, closedBars_concat]
          cases hf : isBarClose bar.tsSecMs fine with
          | true =>
              -- What the finer accumulator held has moved to its closed bar.
              rw [Engine.accs_fold_of_close hf, CascadeAcc.content_reset, add_zero, if_pos rfl,
                List.map_append, List.sum_append, List.map_singleton, List.sum_singleton,
                content_toBar, CascadeAcc.content_fold, add_assoc]
          | false =>
              rw [Engine.accs_fold_of_not_close hf, CascadeAcc.content_fold,
                if_neg Bool.false_ne_true, List.append_nil, add_assoc]

theorem openTs_fold_ne_zero (a : CascadeAcc) (h : bar.tsSecMs ≠ 0) : (a.fold bar).openTs ≠ 0 := by
  simp only [CascadeAcc.fold]
  split
  · exact h
  · assumption

/-- The openings of accumulators that fold the same bar: the coarse one opened with the first of
the closed bars, or else together with the fine one. -/
theorem openTs_fold_coarse {a a' : CascadeAcc} {parts : List Bar}
    (hopen : a.openTs = (parts.head?.map (·.openTs)).getD a'.openTs)
    (hne : ∀ b ∈ parts, b.openTs ≠ 0) :
    (a.fold bar).openTs = (parts.head?.map (·.openTs)).getD (a'.fold bar).openTs := by
  cases parts with
  | nil =>
      have hopen' : a.openTs = a'.openTs := hopen
      simp only [CascadeAcc.fold, hopen', List.head?_nil, Option.map_none, Option.getD_none]
  | cons first rest =>
      have hfirst : a.openTs = first.openTs := hopen
      simp only [CascadeAcc.fold, hfirst, if_neg (hne first List.mem_cons_self), List.head?_cons,
        Option.map_some, Option.getD_some]

theorem head?_concat_toBar (parts : List Bar) (a : CascadeAcc) :
    ((parts ++ [a.toBar exchange symbol tf true]).head?.map (·.openTs)) =
      some ((parts.head?.map (·.openTs)).getD a.openTs) := by
  cases parts <;> rfl

/-- An accumulator opened with the first finer closed bar since the last close, or else with the
finer accumulator. -/
theorem openTs_coarse (exchange symbol : String) {coarse : TF} (h : coarse.finer = some fine)
    (past : List Candle.Bar)
    (hpast : ∀ bar ∈ past, bar.tsSecMs ≠ 0) :
    let parts := closedBars fine (sinceClose coarse (historyOf exchange symbol past))
    ((after exchange symbol past).accs coarse).openTs =
        (parts.head?.map (·.openTs)).getD ((after exchange symbol past).accs fine).openTs ∧
      ∀ b ∈ parts, b.openTs ≠ 0 := by
  induction past using List.reverseRecOn with
  | nil => exact ⟨rfl, fun b hb => absurd hb List.not_mem_nil⟩
  | append_singleton past bar ih =>
      obtain ⟨ihopen, ihne⟩ := ih fun b hb => hpast b (List.mem_append_left _ hb)
      have hbar : bar.tsSecMs ≠ 0 := hpast bar (List.mem_append_right _ List.mem_cons_self)
      rw [after_concat, historyOf_concat]
      cases hc : isBarClose bar.tsSecMs coarse with
      | true =>
          rw [Engine.accs_fold_of_close hc, Engine.accs_fold_of_close (isBarClose_of_finer h hc),
            sinceClose_concat_of_close hc]
          exact ⟨rfl, fun b hb => absurd hb List.not_mem_nil⟩
      | false =>
          rw [Engine.accs_fold_of_not_close hc, openTs_fold_coarse ihopen ihne,
            sinceClose_concat_of_not_close hc, closedBars_concat]
          cases hf : isBarClose bar.tsSecMs fine with
          | true =>
              refine ⟨by rw [if_pos rfl, head?_concat_toBar]; rfl, fun b hb => ?_⟩
              refine (List.mem_append.mp hb).elim (ihne b) fun hb => ?_
              rw [if_pos rfl] at hb
              rw [List.mem_singleton.mp hb]
              exact openTs_fold_ne_zero _ hbar
          | false =>
              rw [Engine.accs_fold_of_not_close hf, if_neg Bool.false_ne_true, List.append_nil]
              exact ⟨rfl, ihne⟩

/-! ### Merges -/

theorem isMerge_of_content {b : Bar} {parts : List Bar}
    (hopen : parts.head?.map (·.openTs) = some b.openTs)
    (h : b.content = (parts.map Bar.content).sum) : IsMerge b parts := by
  have hsum : ∀ bs : List Bar, (bs.map Bar.content).sum =
      ((bs.map fun b => b.content.1).sum, (bs.map (·.barCount)).sum,
        (bs.map (·.gapCount)).sum) := by
    intro bs
    induction bs with
    | nil => rfl
    | cons b bs ih =>
        rw [List.map_cons, List.sum_cons, ih]
        rfl
  rw [hsum, Prod.mk.injEq, Prod.mk.injEq] at h
  obtain ⟨hohlcv, hbars, hgaps⟩ := h
  exact {
    openTs := hopen
    openPrice := (congrArg Ohlcv.openPrice hohlcv).trans (Ohlcv.openPrice_sum _ parts)
    high := (congrArg Ohlcv.high hohlcv).trans (Ohlcv.high_sum _ parts)
    low := (congrArg Ohlcv.low hohlcv).trans (Ohlcv.low_sum _ parts)
    close := (congrArg Ohlcv.close hohlcv).trans (Ohlcv.close_sum _ parts)
    volume := (congrArg Ohlcv.volume hohlcv).trans (Ohlcv.volume_sum _ parts)
    quoteVol := (congrArg Ohlcv.quoteVolume hohlcv).trans (Ohlcv.quoteVolume_sum _ parts)
    buyVolume := (congrArg Ohlcv.buyVolume hohlcv).trans (Ohlcv.buyVolume_sum _ parts)
    tradeCount := (congrArg Ohlcv.tradeCount hohlcv).trans (Ohlcv.tradeCount_sum _ parts)
    barCount := hbars
    gapCount := hgaps }

/-- Coarser timeframes are cut from the finer ones. -/
theorem closes_of_coarser {coarse : TF} (h : fine.seconds ≤ coarse.seconds)
    (hc : isBarClose bar.tsSecMs coarse = true) : isBarClose bar.tsSecMs fine = true := by
  have hdvd : fine.seconds ∣ coarse.seconds := by
    revert h
    cases fine <;> cases coarse <;> decide
  exact isBarClose_iff_dvd.mpr (hdvd.trans (isBarClose_iff_dvd.mp hc))

/-- **Every closed bar is, in every history of a new engine, the sum of exactly the 1s bars folded
since the timeframe's previous close and the merge of the closed bars of the next finer timeframe
since then, and it closes together with all finer timeframes.** -/
theorem closed_isMerge (exchange symbol : String) (past : List Candle.Bar) (bar : Candle.Bar)
    (hpos : ∀ b ∈ past ++ [bar], 0 < b.tsSecMs) :
    let e := after exchange symbol past
    let calls := fun tf => sinceClose tf (historyOf exchange symbol past) ++ [call e bar]
    ∀ b ∈ (e.fold bar bar.tsSecMs).2,
      (∀ tf, tf.seconds ≤ b.tf.seconds → ∃ b' ∈ (e.fold bar bar.tsSecMs).2, b'.tf = tf) ∧
      b.content = secondsContent (calls b.tf) ∧
      ∀ fine, b.tf.finer = some fine → IsMerge b (closedBars fine (calls b.tf)) := by
  intro e calls b hb
  obtain ⟨hclose, hbar⟩ := Engine.mem_fold.mp hb
  have hcontent : b.content = (e.accs b.tf).content + CascadeAcc.secondContent bar := by
    rw [hbar, content_toBar, CascadeAcc.content_fold]
    rfl
  refine ⟨fun tf htf => ?_, ?_, fun fine hfine => ?_⟩
  · exact ⟨((e.accs tf).fold bar).toBar e.exchange e.symbol tf true,
      Engine.mem_fold.mpr ⟨closes_of_coarser htf hclose, rfl⟩, rfl⟩
  · rw [hcontent, content_acc, secondsContent_concat]
  · obtain ⟨hopen, hne⟩ := openTs_coarse exchange symbol hfine past
      fun b hb => (Int64.ne_of_lt (hpos b (List.mem_append_left _ hb))).symm
    have hparts : closedBars fine (calls b.tf) = _ :=
      closedBars_concat e bar (sinceClose b.tf (historyOf exchange symbol past))
    rw [if_pos (isBarClose_of_finer hfine hclose)] at hparts
    rw [hparts]
    apply isMerge_of_content
    · rw [head?_concat_toBar, ← openTs_fold_coarse hopen hne, hbar]
      rfl
    · rw [hcontent, content_coarse hfine, List.map_append, List.sum_append, List.map_singleton,
        List.sum_singleton, content_toBar, CascadeAcc.content_fold, add_assoc]

/-- The last second of a minute, with three trades. -/
def tradedAt (tsSecMs : Int64) (low high : ℚ) : Candle.Bar where
  tsSecMs := tsSecMs
  openPrice := some low
  high := some high
  low := some low
  close := some high
  volume := some 3
  quoteVolume := some (3 * high)
  buyVolume := some 1
  sellVolume := some 2
  tradeCount := 3

/-- Two minutes make a part of five. -/
theorem closed_five_minutes :
    let past : List Candle.Bar := [tradedAt 59000 6 7]
    ∃ b ∈ ((after "bybit" "BTC-USDT" past).fold (tradedAt 299000 5 8) 299000).2,
      b.tf = .tf5m ∧ b.high = some 8 ∧ b.volume = 6 ∧
        ∃ parts, parts.length = 2 ∧ IsMerge b parts := by
  intro past
  have hmem : ∃ b ∈ ((after "bybit" "BTC-USDT" past).fold (tradedAt 299000 5 8) 299000).2,
      b.tf = .tf5m ∧ b.high = some 8 ∧ b.volume = 6 := by decide +kernel
  obtain ⟨b, hb, htf, hhigh, hvolume⟩ := hmem
  obtain ⟨-, -, hmerge⟩ :=
    closed_isMerge "bybit" "BTC-USDT" past (tradedAt 299000 5 8) (by decide) b hb
  refine ⟨b, hb, htf, hhigh, hvolume, _, ?_, hmerge .tf1m (by rw [htf]; rfl)⟩
  rw [htf]
  decide +kernel

end MagnumOpus.Candle.Cascade
