import MagnumOpus.Lib.KeyedSum
import MagnumOpus.Candle.FullBar

/-! # What a bar says of its trades

The calls of `Apply` between two resets of the bar, and the bar that `currentBar` returns then.

* **Trades that count.** A call counts as a trade when it is one, price and size are numbers, and
  the size is positive (`ApplyCall.validTrade`). The trades of the accumulator are the fold of these
  (`trades_applyCalls`), whatever the other calls are.
* **Conservation.** Counts and volumes are those of the trades that count, side by side and level by
  level, and every price of the bar lies between its low and its high (`Conserves`). -/

namespace MagnumOpus.Candle

open KeyedSum KeyedWrites

/-- The arguments of `Apply`. -/
structure ApplyCall where
  price : String
  size : String
  isTrade : Bool
  side : String
  tsMs : Int64
  prevQuote : BestQuote
  currQuote : BestQuote
deriving DecidableEq

/-- A trade that counts, with the mid price when there is one. -/
structure ValidTrade where
  level : String
  price : ℚ
  size : ℚ
  side : String
  tsMs : Int64
  mid : Option ℚ
deriving DecidableEq

namespace ApplyCall

variable (N : Numerics)

/-- The mid price of the quote after the call. -/
def mid (c : ApplyCall) : Option ℚ :=
  (Accumulator.parseQuote N c.currQuote).map fun q => midPrice q.1 q.2

def validTrade (c : ApplyCall) : Option ValidTrade :=
  if c.isTrade then
    (Accumulator.parseTrade N c.price c.size).map fun ps =>
      { level := c.price, price := ps.1, size := ps.2, side := c.side, tsMs := c.tsMs,
        mid := c.mid N }
  else none

theorem size_pos {N : Numerics} {c : ApplyCall} {v : ValidTrade} (h : c.validTrade N = some v) :
    0 < v.size := by
  unfold validTrade at h
  split at h
  · obtain ⟨ps, hps, rfl⟩ := Option.map_eq_some_iff.mp h
    exact (Accumulator.parseTrade_eq_some.mp hps).2.2
  · cases h

end ApplyCall

/-- The trades after one more that counts. -/
def Trades.record (t : Trades) (v : ValidTrade) : Trades :=
  Accumulator.applyTrade t v.level v.price v.size v.side v.tsMs v.mid

namespace FullAccumulator

variable (N : Numerics)

def applyCall (a : FullAccumulator) (c : ApplyCall) : FullAccumulator :=
  a.apply N c.price c.size c.isTrade c.side c.tsMs c.prevQuote c.currQuote

def applyCalls (a : FullAccumulator) (cs : List ApplyCall) : FullAccumulator :=
  cs.foldl (applyCall N) a

/-- The trades of a bar that count. -/
def validTrades (cs : List ApplyCall) : List ValidTrade := cs.filterMap (ApplyCall.validTrade N)

theorem trades_applyCall (a : FullAccumulator) (c : ApplyCall) :
    (a.applyCall N c).trades = (c.validTrade N).toList.foldl Trades.record a.trades := by
  unfold applyCall FullAccumulator.apply BarAccumulator.apply Accumulator.apply ApplyCall.validTrade
  cases c.isTrade with
  | false => rfl
  | true =>
      cases hps : Accumulator.parseTrade N c.price c.size with
      | none => simp
      | some ps => simp [Trades.record, ApplyCall.mid]

theorem trades_applyCalls (cs : List ApplyCall) (a : FullAccumulator) :
    (a.applyCalls N cs).trades = (validTrades N cs).foldl Trades.record a.trades := by
  induction cs generalizing a with
  | nil => rfl
  | cons c cs ih =>
      have hcs : (a.applyCalls N (c :: cs)).trades =
          (validTrades N cs).foldl Trades.record (a.applyCall N c).trades := ih (a.applyCall N c)
      rw [hcs, trades_applyCall]
      unfold validTrades
      rw [List.filterMap_cons]
      cases c.validTrade N with
      | none => rfl
      | some v => rfl

end FullAccumulator

/-! ### Weighted prices -/

/-- The total of the sizes. -/
def volumeOf (vs : List ValidTrade) : ℚ := (vs.map ValidTrade.size).sum

/-- The total of the prices by size. -/
def quoteVolumeOf (vs : List ValidTrade) : ℚ := (vs.map fun v => v.price * v.size).sum

/-- The volume-weighted price. -/
def vwapOf (vs : List ValidTrade) : ℚ := quoteVolumeOf vs / volumeOf vs

def buysOf (vs : List ValidTrade) : List ValidTrade := vs.filter fun v => v.side = "buy"

def sellsOf (vs : List ValidTrade) : List ValidTrade := vs.filter fun v => v.side ≠ "buy"

theorem volumeOf_append (vs : List ValidTrade) (v : ValidTrade) :
    volumeOf (vs ++ [v]) = volumeOf vs + v.size := by
  unfold volumeOf
  rw [List.map_append, List.sum_append, List.map_singleton, List.sum_singleton]

theorem quoteVolumeOf_append (vs : List ValidTrade) (v : ValidTrade) :
    quoteVolumeOf (vs ++ [v]) = quoteVolumeOf vs + v.price * v.size := by
  unfold quoteVolumeOf
  rw [List.map_append, List.sum_append, List.map_singleton, List.sum_singleton]

theorem buysOf_append (vs : List ValidTrade) (v : ValidTrade) :
    buysOf (vs ++ [v]) = if v.side = "buy" then buysOf vs ++ [v] else buysOf vs := by
  unfold buysOf
  rw [List.filter_append, List.filter_singleton]
  by_cases h : v.side = "buy"
  · simp [h]
  · simp [h]

theorem sellsOf_append (vs : List ValidTrade) (v : ValidTrade) :
    sellsOf (vs ++ [v]) = if v.side = "buy" then sellsOf vs else sellsOf vs ++ [v] := by
  unfold sellsOf
  rw [List.filter_append, List.filter_singleton]
  by_cases h : v.side = "buy"
  · simp [h]
  · simp [h]

theorem volumeOf_buys_add_sells (vs : List ValidTrade) :
    volumeOf (buysOf vs) + volumeOf (sellsOf vs) = volumeOf vs := by
  induction vs using List.reverseRecOn with
  | nil => exact add_zero 0
  | append_singleton vs v ih =>
      rw [buysOf_append, sellsOf_append, volumeOf_append, ← ih]
      by_cases h : v.side = "buy"
      · rw [if_pos h, if_pos h, volumeOf_append, add_right_comm]
      · rw [if_neg h, if_neg h, volumeOf_append, add_assoc]

theorem volumeOf_pos_iff {vs : List ValidTrade} (hsize : ∀ v ∈ vs, 0 < v.size) :
    0 < volumeOf vs ↔ vs ≠ [] := by
  constructor
  · rintro hpos rfl
    exact lt_irrefl 0 hpos
  · intro hne
    apply List.sum_pos
    · intro s hs
      obtain ⟨v, hv, rfl⟩ := List.mem_map.mp hs
      exact hsize v hv
    · simpa using hne

/-- All prices lie between two bounds, and every size is positive. -/
def Bounded (lo hi : ℚ) (vs : List ValidTrade) : Prop :=
  ∀ v ∈ vs, 0 < v.size ∧ lo ≤ v.price ∧ v.price ≤ hi

theorem Bounded.mono {lo hi : ℚ} {vs us : List ValidTrade} (h : Bounded lo hi vs)
    (hsub : ∀ u ∈ us, u ∈ vs) : Bounded lo hi us := fun u hu => h u (hsub u hu)

theorem Bounded.quoteVolumeOf {lo hi : ℚ} {vs : List ValidTrade} (h : Bounded lo hi vs) :
    lo * volumeOf vs ≤ quoteVolumeOf vs ∧ quoteVolumeOf vs ≤ hi * volumeOf vs := by
  induction vs using List.reverseRecOn with
  | nil => exact ⟨le_of_eq (mul_zero lo), le_of_eq (mul_zero hi).symm⟩
  | append_singleton vs v ih =>
      obtain ⟨hlo, hhi⟩ := ih (h.mono fun u hu => List.mem_append_left _ hu)
      obtain ⟨hsize, hvlo, hvhi⟩ := h v (by simp)
      have hlow := mul_le_mul_of_nonneg_right hvlo hsize.le
      have hhigh := mul_le_mul_of_nonneg_right hvhi hsize.le
      rw [volumeOf_append, quoteVolumeOf_append, mul_add, mul_add]
      exact ⟨add_le_add hlo hlow, add_le_add hhi hhigh⟩

theorem Bounded.volumeOf_pos {lo hi : ℚ} {vs : List ValidTrade} (h : Bounded lo hi vs)
    (hne : vs ≠ []) : 0 < volumeOf vs := (volumeOf_pos_iff fun v hv => (h v hv).1).mpr hne

theorem div_mem_Icc {lo hi numer denom : ℚ} (hdenom : 0 < denom) (hlo : lo * denom ≤ numer)
    (hhi : numer ≤ hi * denom) : numer / denom ∈ Set.Icc lo hi :=
  ⟨(le_div_iff₀ hdenom).mpr hlo, (div_le_iff₀ hdenom).mpr hhi⟩

theorem Bounded.vwapOf {lo hi : ℚ} {vs : List ValidTrade} (h : Bounded lo hi vs) (hne : vs ≠ []) :
    vwapOf vs ∈ Set.Icc lo hi :=
  div_mem_Icc (h.volumeOf_pos hne) h.quoteVolumeOf.1 h.quoteVolumeOf.2

/-! ### The invariant -/

/-- The state of the trades after those that count. -/
structure Tally (vs : List ValidTrade) (t : Trades) : Prop where
  count : t.tradeCount = vs.length
  ohlcv : t.ohlcv = (vs.map fun v => tradeOhlcv v.price v.size v.side).sum
  buyVwapNumer : t.buyVwapNumer = quoteVolumeOf (buysOf vs)
  buyVwapDenom : t.buyVwapDenom = volumeOf (buysOf vs)
  sellVwapNumer : t.sellVwapNumer = quoteVolumeOf (sellsOf vs)
  sellVwapDenom : t.sellVwapDenom = volumeOf (sellsOf vs)
  footprint_buy : mapTotal FootprintCell.buyVol t.footprintMap = volumeOf (buysOf vs)
  footprint_sell : mapTotal FootprintCell.sellVol t.footprintMap = volumeOf (sellsOf vs)
  levels : t.tradePriceLevels = t.footprintMap.keys
  close : ∀ v ∈ vs.getLast?, t.close = v.price
  denom : 0 ≤ t.twapDenom
  twap : ∀ lo hi, Bounded lo hi vs →
    lo * t.twapDenom ≤ t.twapNumer ∧ t.twapNumer ≤ hi * t.twapDenom

theorem tally_nil : Tally [] {} where
  count := rfl
  ohlcv := by simp [Trades.ohlcv]; rfl
  buyVwapNumer := rfl
  buyVwapDenom := rfl
  sellVwapNumer := rfl
  sellVwapDenom := rfl
  footprint_buy := mapTotal_empty _
  footprint_sell := mapTotal_empty _
  levels := Finmap.keys_empty.symm
  close := fun v hv => by cases hv
  denom := le_refl 0
  twap := fun lo hi _ => ⟨le_of_eq (mul_zero lo), le_of_eq (mul_zero hi).symm⟩

theorem footprintMap_record (t : Trades) (v : ValidTrade) :
    (t.record v).footprintMap =
      t.footprintMap.insert v.level
        (if v.side = "buy" then
          { (t.footprintMap.lookup v.level).getD {} with
            buyVol := ((t.footprintMap.lookup v.level).getD {}).buyVol + v.size }
        else
          { (t.footprintMap.lookup v.level).getD {} with
            sellVol := ((t.footprintMap.lookup v.level).getD {}).sellVol + v.size }) := by
  simp [Trades.record, Accumulator.applyTrade]

theorem twapNumer_record (t : Trades) (v : ValidTrade) :
    (t.record v).twapNumer =
      if t.tradeCount ≠ 0 ∧ 0 < (v.tsMs - t.lastTradeTsMs).toInt then
        t.twapNumer + t.close * (v.tsMs - t.lastTradeTsMs).toInt
      else t.twapNumer := by
  simp [Trades.record, Accumulator.applyTrade]

theorem twapDenom_record (t : Trades) (v : ValidTrade) :
    (t.record v).twapDenom =
      if t.tradeCount ≠ 0 ∧ 0 < (v.tsMs - t.lastTradeTsMs).toInt then
        t.twapDenom + (v.tsMs - t.lastTradeTsMs).toInt
      else t.twapDenom := by
  simp [Trades.record, Accumulator.applyTrade]

section Record

variable {vs : List ValidTrade} {t : Trades} (h : Tally vs t) (v : ValidTrade)

include h

/-- The last trade holds its price until the next one. -/
theorem Tally.close_bounds (hne : vs ≠ []) {lo hi : ℚ} (hb : Bounded lo hi vs) :
    lo ≤ t.close ∧ t.close ≤ hi := by
  have hlast := List.getLast?_eq_some_getLast hne
  rw [h.close _ hlast]
  exact (hb _ (List.getLast_mem hne)).2

theorem Tally.record_vwap :
    (t.record v).buyVwapNumer = quoteVolumeOf (buysOf (vs ++ [v])) ∧
    (t.record v).buyVwapDenom = volumeOf (buysOf (vs ++ [v])) ∧
    (t.record v).sellVwapNumer = quoteVolumeOf (sellsOf (vs ++ [v])) ∧
    (t.record v).sellVwapDenom = volumeOf (sellsOf (vs ++ [v])) := by
  unfold Trades.record Accumulator.applyTrade
  rw [buysOf_append, sellsOf_append]
  by_cases hb : v.side = "buy"
  · simp [hb, quoteVolumeOf_append, volumeOf_append, h.buyVwapNumer, h.buyVwapDenom,
      h.sellVwapNumer, h.sellVwapDenom]
  · simp [hb, quoteVolumeOf_append, volumeOf_append, h.buyVwapNumer, h.buyVwapDenom,
      h.sellVwapNumer, h.sellVwapDenom]

/-- The cell of a trade grows on the side of the trade. -/
theorem Tally.record_footprint :
    mapTotal FootprintCell.buyVol (t.record v).footprintMap = volumeOf (buysOf (vs ++ [v])) ∧
    mapTotal FootprintCell.sellVol (t.record v).footprintMap = volumeOf (sellsOf (vs ++ [v])) := by
  have hcell : ∀ f : FootprintCell → ℚ, f {} = 0 →
      f ((t.footprintMap.lookup v.level).getD {}) = (t.footprintMap.lookup v.level).elim 0 f := by
    intro f hf
    cases t.footprintMap.lookup v.level with
    | none => exact hf
    | some cell => rfl
  have hbuy := hcell FootprintCell.buyVol rfl
  have hsell := hcell FootprintCell.sellVol rfl
  rw [footprintMap_record, buysOf_append, sellsOf_append]
  by_cases hb : v.side = "buy"
  · rw [if_pos hb, if_pos hb, if_pos hb, volumeOf_append, ← h.footprint_buy, ← h.footprint_sell]
    refine ⟨mapTotal_insert _ _ _ (by rw [hbuy]), ?_⟩
    rw [mapTotal_insert FootprintCell.sellVol _ v.level (by rw [hsell, add_zero]), add_zero]
  · rw [if_neg hb, if_neg hb, if_neg hb, volumeOf_append, ← h.footprint_buy, ← h.footprint_sell]
    refine ⟨?_, mapTotal_insert _ _ _ (by rw [hsell])⟩
    rw [mapTotal_insert FootprintCell.buyVol _ v.level (by rw [hbuy, add_zero]), add_zero]

theorem Tally.record_twap {lo hi : ℚ} (hb : Bounded lo hi (vs ++ [v])) :
    lo * (t.record v).twapDenom ≤ (t.record v).twapNumer ∧
      (t.record v).twapNumer ≤ hi * (t.record v).twapDenom := by
  have hvs : Bounded lo hi vs := hb.mono fun u hu => List.mem_append_left _ hu
  obtain ⟨hlo, hhi⟩ := h.twap lo hi hvs
  rw [twapNumer_record, twapDenom_record]
  by_cases hheld : t.tradeCount ≠ 0 ∧ 0 < (v.tsMs - t.lastTradeTsMs).toInt
  · have hne : vs ≠ [] := by
      rintro rfl
      exact hheld.1 h.count
    obtain ⟨hclo, hchi⟩ := h.close_bounds hne hvs
    have hdt : (0 : ℚ) ≤ (v.tsMs - t.lastTradeTsMs).toInt := by exact_mod_cast hheld.2.le
    rw [if_pos hheld, if_pos hheld, mul_add, mul_add]
    exact ⟨add_le_add hlo (mul_le_mul_of_nonneg_right hclo hdt),
      add_le_add hhi (mul_le_mul_of_nonneg_right hchi hdt)⟩
  · rw [if_neg hheld, if_neg hheld]
    exact ⟨hlo, hhi⟩

theorem Tally.record (hstarted : t.Started) : Tally (vs ++ [v]) (t.record v) := by
  obtain ⟨hbuyNumer, hbuyDenom, hsellNumer, hsellDenom⟩ := h.record_vwap v
  obtain ⟨hbuy, hsell⟩ := h.record_footprint v
  constructor
  case count =>
    show t.tradeCount + 1 = (vs ++ [v]).length
    rw [h.count, List.length_append, List.length_singleton]
  case ohlcv =>
    rw [List.map_append, List.sum_append, ← h.ohlcv, List.map_singleton, List.sum_singleton]
    exact Trades.ohlcv_applyTrade hstarted v.level v.price v.size v.side v.tsMs v.mid
  case buyVwapNumer => exact hbuyNumer
  case buyVwapDenom => exact hbuyDenom
  case sellVwapNumer => exact hsellNumer
  case sellVwapDenom => exact hsellDenom
  case footprint_buy => exact hbuy
  case footprint_sell => exact hsell
  case levels =>
    rw [footprintMap_record, keys_insert, ← h.levels]
    rfl
  case close =>
    intro u hu
    rw [List.getLast?_append, List.getLast?_singleton, Option.some_or, Option.mem_some_iff] at hu
    rw [← hu]
    rfl
  case denom =>
    rw [twapDenom_record]
    split
    next hheld => exact add_nonneg h.denom (by exact_mod_cast hheld.2.le)
    next => exact h.denom
  case twap => exact fun lo hi hb => h.record_twap v hb

end Record

theorem tally_foldl (vs : List ValidTrade) :
    Tally vs (vs.foldl Trades.record {}) ∧ (vs.foldl Trades.record {}).Started := by
  induction vs using List.reverseRecOn with
  | nil => exact ⟨tally_nil, Trades.started_new⟩
  | append_singleton vs v ih =>
      rw [List.foldl_append, List.foldl_cons, List.foldl_nil]
      exact ⟨ih.1.record v ih.2, Trades.started_applyTrade _ _ _ _ _ _ _⟩

/-! ### The bar -/

/-- A value that a bar has when there is a trade that counts. -/
def onTrades {α : Type*} (vs : List ValidTrade) (x : α) : Option α :=
  if vs = [] then none else some x

/-- A bar of an accumulator is that of the trades that count. -/
structure Conserves (F : Features) (vs : List ValidTrade) (a : FullAccumulator) (bar : FullBar) :
    Prop where
  tradeCount : bar.tradeCount = Int64.ofNat vs.length
  volume : bar.volume = onTrades vs (volumeOf vs)
  quoteVolume : bar.quoteVolume = onTrades vs (quoteVolumeOf vs)
  buyVolume : bar.buyVolume = onTrades vs (volumeOf (buysOf vs))
  sellVolume : bar.sellVolume = onTrades vs (volumeOf (sellsOf vs))
  sides : volumeOf (buysOf vs) + volumeOf (sellsOf vs) = volumeOf vs
  footprint : bar.footprintJSON = (onTrades vs a.trades.footprintMap).bind F.footprintJSON
  footprint_buy :
    bar.buyVolume = onTrades vs (mapTotal FootprintCell.buyVol a.trades.footprintMap)
  footprint_sell :
    bar.sellVolume = onTrades vs (mapTotal FootprintCell.sellVol a.trades.footprintMap)
  levels : bar.numTradePriceLevels = onTrades vs a.trades.footprintMap.keys.card
  openPrice : bar.openPrice = vs.head?.map ValidTrade.price
  close : bar.close = vs.getLast?.map ValidTrade.price
  high : bar.high = (vs.map ValidTrade.price).max?
  low : bar.low = (vs.map ValidTrade.price).min?
  buyVwap : bar.buyVwapDeviationBps =
    if a.quotes.hasCloseQuote = true ∧ 0 < midPrice a.quotes.bestBid a.quotes.bestAsk ∧
        buysOf vs ≠ [] then
      some (BarAccumulator.vwapDeviationBps (quoteVolumeOf (buysOf vs)) (volumeOf (buysOf vs))
        (midPrice a.quotes.bestBid a.quotes.bestAsk))
    else none
  sellVwap : bar.sellVwapDeviationBps =
    if a.quotes.hasCloseQuote = true ∧ 0 < midPrice a.quotes.bestBid a.quotes.bestAsk ∧
        sellsOf vs ≠ [] then
      some (BarAccumulator.vwapDeviationBps (quoteVolumeOf (sellsOf vs)) (volumeOf (sellsOf vs))
        (midPrice a.quotes.bestBid a.quotes.bestAsk))
    else none
  within : ∀ lo hi, bar.low = some lo → bar.high = some hi →
    (∀ p, bar.openPrice = some p ∨ bar.close = some p ∨ bar.twap = some p → p ∈ Set.Icc lo hi) ∧
    (buysOf vs ≠ [] → vwapOf (buysOf vs) ∈ Set.Icc lo hi) ∧
    (sellsOf vs ≠ [] → vwapOf (sellsOf vs) ∈ Set.Icc lo hi)

theorem onTrade_eq {α : Type} {vs : List ValidTrade} {t : Trades} (h : Tally vs t) (x : α) :
    (if 0 < t.tradeCount then some x else none) = onTrades vs x := by
  unfold onTrades
  rw [h.count]
  cases vs with
  | nil => rfl
  | cons v vs => rw [if_pos (List.length_pos_of_ne_nil (List.cons_ne_nil v vs)),
      if_neg (List.cons_ne_nil v vs)]

/-- The sizes of the buys, where the other trades count as nothing. -/
theorem sum_buys (vs : List ValidTrade) :
    (vs.map fun v => if v.side = "buy" then v.size else 0).sum = volumeOf (buysOf vs) := by
  induction vs using List.reverseRecOn with
  | nil => rfl
  | append_singleton vs v ih =>
      rw [List.map_append, List.sum_append, ih, buysOf_append, List.map_singleton,
        List.sum_singleton]
      by_cases h : v.side = "buy"
      · rw [if_pos h, if_pos h, volumeOf_append]
      · rw [if_neg h, if_neg h, add_zero]

section Bar

variable {vs : List ValidTrade} {a : FullAccumulator} (h : Tally vs a.trades)

include h

theorem Tally.volumes : a.trades.volumeSum = volumeOf vs ∧ a.trades.quoteVolSum = quoteVolumeOf vs ∧
    a.trades.buyVolume = volumeOf (buysOf vs) := by
  have hvolume : a.trades.ohlcv.volume = _ := congrArg Ohlcv.volume h.ohlcv
  have hquote : a.trades.ohlcv.quoteVolume = _ := congrArg Ohlcv.quoteVolume h.ohlcv
  have hbuy : a.trades.ohlcv.buyVolume = _ := congrArg Ohlcv.buyVolume h.ohlcv
  rw [Ohlcv.volume_sum] at hvolume
  rw [Ohlcv.quoteVolume_sum] at hquote
  rw [Ohlcv.buyVolume_sum] at hbuy
  exact ⟨hvolume, hquote, hbuy.trans (sum_buys vs)⟩

theorem Tally.sellVolume (hsize : ∀ v ∈ vs, 0 < v.size) :
    a.sellVolume = volumeOf (sellsOf vs) := by
  have hnonneg : 0 ≤ volumeOf (sellsOf vs) := by
    apply List.sum_nonneg
    intro s hs
    obtain ⟨v, hv, rfl⟩ := List.mem_map.mp hs
    exact (hsize v (List.mem_of_mem_filter hv)).le
  have hsides := volumeOf_buys_add_sells vs
  unfold Accumulator.sellVolume
  rw [h.volumes.1, h.volumes.2.2, ← hsides, add_sub_cancel_left, max_eq_right hnonneg]

theorem Tally.footprint_ne (hsize : ∀ v ∈ vs, 0 < v.size) (hne : vs ≠ []) :
    a.trades.footprintMap ≠ ∅ := by
  intro hempty
  have hbuy := h.footprint_buy
  have hsell := h.footprint_sell
  rw [hempty, mapTotal_empty] at hbuy hsell
  have hpos : 0 < volumeOf vs := (volumeOf_pos_iff hsize).mpr hne
  rw [← volumeOf_buys_add_sells, ← hbuy, ← hsell, add_zero] at hpos
  exact lt_irrefl 0 hpos

/-- The prices of the bar: the first, the last, the highest and the lowest. -/
theorem Tally.prices : a.trades.ohlcv.openPrice = vs.head?.map ValidTrade.price ∧
    a.trades.ohlcv.close = vs.getLast?.map ValidTrade.price ∧
    a.trades.ohlcv.high = (vs.map ValidTrade.price).max? ∧
    a.trades.ohlcv.low = (vs.map ValidTrade.price).min? := by
  rw [h.ohlcv, Ohlcv.openPrice_sum, Ohlcv.close_sum, Ohlcv.high_sum, Ohlcv.low_sum]
  refine ⟨?_, ?_, ?_, ?_⟩
  · cases vs with
    | nil => rfl
    | cons v vs => rfl
  · rw [List.getLast?_eq_head?_reverse]
    cases vs.reverse with
    | nil => rfl
    | cons v us => rfl
  · rw [← List.filterMap_eq_map]
    rfl
  · rw [← List.filterMap_eq_map]
    rfl

/-- The time-weighted price lies where the prices do. -/
theorem Tally.twap_mem (hne : vs ≠ []) {lo hi : ℚ} (hb : Bounded lo hi vs) (barEndMs : Int64) :
    BarAccumulator.twap a.trades barEndMs ∈ Set.Icc lo hi := by
  obtain ⟨hlo, hhi⟩ := h.twap lo hi hb
  obtain ⟨hclo, hchi⟩ := h.close_bounds hne hb
  unfold BarAccumulator.twap
  by_cases hdt : 0 < barEndMs - a.trades.lastTradeTsMs
  · have hpos : (0 : ℚ) < (barEndMs - a.trades.lastTradeTsMs).toInt := by
      exact_mod_cast Int64.lt_iff_toInt_lt.mp hdt
    rw [if_pos hdt]
    apply div_mem_Icc (add_pos_of_nonneg_of_pos h.denom hpos)
    · rw [mul_add]
      exact add_le_add hlo (mul_le_mul_of_nonneg_right hclo hpos.le)
    · rw [mul_add]
      exact add_le_add hhi (mul_le_mul_of_nonneg_right hchi hpos.le)
  · rw [if_neg hdt]
    by_cases hdenom : 0 < a.trades.twapDenom
    · rw [if_pos hdenom]
      exact div_mem_Icc hdenom hlo hhi
    · rw [if_neg hdenom]
      exact ⟨hclo, hchi⟩

end Bar

theorem Tally.conserves {vs : List ValidTrade} {a : FullAccumulator} (h : Tally vs a.trades)
    (hsize : ∀ v ∈ vs, 0 < v.size) (F : Features) (tsSecMs : Int64) (isPartial : Bool) :
    Conserves F vs a (a.currentBar F tsSecMs isPartial) := by
  obtain ⟨hvolume, hquote, hbuy⟩ := h.volumes
  obtain ⟨hopen, hclose, hhigh, hlow⟩ := h.prices
  have hsell := h.sellVolume hsize
  have hbuysize : ∀ v ∈ buysOf vs, 0 < v.size := fun v hv => hsize v (List.mem_of_mem_filter hv)
  have hsellsize : ∀ v ∈ sellsOf vs, 0 < v.size := fun v hv => hsize v (List.mem_of_mem_filter hv)
  constructor
  case tradeCount => exact congrArg Int64.ofNat h.count
  case volume => exact (onTrade_eq h _).trans (congrArg (onTrades vs) hvolume)
  case quoteVolume => exact (onTrade_eq h _).trans (congrArg (onTrades vs) hquote)
  case buyVolume => exact (onTrade_eq h _).trans (congrArg (onTrades vs) hbuy)
  case sellVolume => exact (onTrade_eq h _).trans (congrArg (onTrades vs) hsell)
  case sides => exact volumeOf_buys_add_sells vs
  case footprint =>
    show (if decide (0 < a.trades.tradeCount ∧ a.trades.footprintMap ≠ ∅) = true then
      F.footprintJSON a.trades.footprintMap else none) = _
    unfold onTrades
    by_cases hne : vs = []
    · rw [if_pos hne, if_neg]
      · rfl
      · rw [h.count, hne]
        simp
    · rw [if_neg hne, if_pos]
      · rfl
      · rw [h.count, decide_eq_true_iff]
        exact ⟨List.length_pos_of_ne_nil hne, h.footprint_ne hsize hne⟩
  case footprint_buy =>
    rw [h.footprint_buy, ← hbuy]
    exact onTrade_eq h _
  case footprint_sell =>
    rw [h.footprint_sell, ← hsell]
    exact onTrade_eq h _
  case levels =>
    rw [← h.levels]
    exact onTrade_eq h _
  case openPrice => exact hopen
  case close => exact hclose
  case high => exact hhigh
  case low => exact hlow
  case buyVwap =>
    simp only [← volumeOf_pos_iff hbuysize, ← h.buyVwapNumer, ← h.buyVwapDenom]
    rfl
  case sellVwap =>
    simp only [← volumeOf_pos_iff hsellsize, ← h.sellVwapNumer, ← h.sellVwapDenom]
    rfl
  case within =>
    intro lo hi hlo hhi
    have hlo' : (vs.map ValidTrade.price).min? = some lo := hlow.symm.trans hlo
    have hhi' : (vs.map ValidTrade.price).max? = some hi := hhigh.symm.trans hhi
    have hb : Bounded lo hi vs := fun v hv =>
      ⟨hsize v hv, (List.min?_eq_some_iff.mp hlo').2 _ (List.mem_map_of_mem hv),
        (List.max?_eq_some_iff.mp hhi').2 _ (List.mem_map_of_mem hv)⟩
    have hne : vs ≠ [] := by
      rintro rfl
      cases hlo'
    refine ⟨?_, fun hbuys => ?_, fun hsells => ?_⟩
    · rintro p (hp | hp | hp)
      · obtain ⟨v, hv, rfl⟩ := Option.map_eq_some_iff.mp (hopen.symm.trans hp)
        exact (hb v (List.mem_of_head? hv)).2
      · obtain ⟨v, hv, rfl⟩ := Option.map_eq_some_iff.mp (hclose.symm.trans hp)
        exact (hb v (List.mem_of_getLast? hv)).2
      · have htwap := (onTrade_eq h _).symm.trans hp
        rw [onTrades, if_neg hne] at htwap
        rw [← Option.some.inj htwap]
        exact h.twap_mem hne hb _
    · exact (hb.mono fun v hv => List.mem_of_mem_filter hv).vwapOf hbuys
    · exact (hb.mono fun v hv => List.mem_of_mem_filter hv).vwapOf hsells

/-- **Between two resets of the bar, whatever the ticks, the bar is that of the trades that
count.** -/
theorem conserves_applyCalls (N : Numerics) (F : Features) (a : FullAccumulator)
    (cs : List ApplyCall) (tsSecMs : Int64) (isPartial : Bool) :
    Conserves F (FullAccumulator.validTrades N cs) (a.barReset.applyCalls N cs)
      ((a.barReset.applyCalls N cs).currentBar F tsSecMs isPartial) := by
  apply Tally.conserves
  · rw [FullAccumulator.trades_applyCalls]
    exact (tally_foldl _).1
  · intro v hv
    obtain ⟨c, -, hc⟩ := List.mem_filterMap.mp hv
    exact ApplyCall.size_pos hc

end MagnumOpus.Candle
