import Mathlib.Tactic.Ring
import MagnumOpus.Candle.BarTrades
import MagnumOpus.Candle.ValueArea
import MagnumOpus.Lib.SeriesBlocks

/-! # Signals of a footprint

What is computed from the volumes that a bar has at each price (`imbalance.go`, `auction.go`).  The
price levels come from a loop over a map and are sorted by price.

* **Imbalance.** The stacks are the longest blocks of neighbouring levels on which one side is more
  than three times the other; no order decides them when no two texts denote one price
  (`imbalance_signals`).
* **Auction.** For the trades of a bar, the top is unfinished when the trades at a text of the high
  are all buys, the bottom when those at a text of the low are all sells, and never all levels are
  single prints (`auction_of_trades`). -/

namespace MagnumOpus.Candle

open KeyedSum SeriesBlocks

/-- A cell of a footprint with its price. -/
structure PricedCell where
  key : String
  price : ℚ
  buyVol : ℚ
  selVol : ℚ
deriving DecidableEq

section Compute

variable (parseFloat : String → Option ℚ)

/-- The cells with a price; other keys are skipped. -/
def cellsOf (footprint : Footprint) : List PricedCell :=
  footprint.entries.filterMap fun e =>
    (parseFloat e.1).map fun price => ⟨e.1, price, e.2.buyVol, e.2.sellVol⟩

/-! ### Imbalance -/

def PricedCell.buyImbalanced (c : PricedCell) : Bool :=
  0 < c.selVol ∧ mkRat 3 1 * c.selVol < c.buyVol

def PricedCell.sellImbalanced (c : PricedCell) : Bool :=
  0 < c.buyVol ∧ mkRat 3 1 * c.buyVol < c.selVol

/-- One turn of the loop, on `maxLen` and `cur`. -/
def runStep (r : ℕ × ℕ) (flag : Bool) : ℕ × ℕ :=
  if flag then (max r.1 (r.2 + 1), r.2 + 1) else (r.1, 0)

def longestRun (flags : List Bool) : ℕ := (flags.foldl runStep (0, 0)).1

def computeImbalance (S : SliceSort PricedCell ℚ) (footprint : Footprint) : ImbalanceSignals :=
  let cells := cellsOf parseFloat footprint
  if cells = [] then {}
  else
    let sorted := S.sort PricedCell.price cells
    let buyCount := sorted.countP PricedCell.buyImbalanced
    let sellCount := sorted.countP PricedCell.sellImbalanced
    { buyCount := buyCount
      sellCount := sellCount
      stackBuy := longestRun (sorted.map PricedCell.buyImbalanced)
      stackSell := longestRun (sorted.map PricedCell.sellImbalanced)
      ratio := mkRat (buyCount - sellCount) sorted.length }

/-! ### Auction -/

def PricedCell.vol (c : PricedCell) : ℚ := c.buyVol + c.selVol

/-- Little volume inside the bar. -/
def PricedCell.singlePrint (meanVol high low : ℚ) (c : PricedCell) : Bool :=
  c.vol < mkRat 1 10 * meanVol ∧ low ≤ c.price ∧ c.price ≤ high

/-- The tolerance for prices that are the same. -/
def samePrice : ℚ := mkRat 1 1000000000

def computeAuctionSignals (S : SliceSort PricedCell ℚ) (marshal : List String → String)
    (footprint : Footprint) (high low : ℚ) : AuctionSignals :=
  let cells := cellsOf parseFloat footprint
  if cells = [] then {}
  else
    let meanVol := (cells.map PricedCell.vol).sum / cells.length
    let sorted := S.sort PricedCell.price cells
    let singlePrintKeys := (sorted.filter (PricedCell.singlePrint meanVol high low)).map
      PricedCell.key
    { singlePrintCount := singlePrintKeys.length
      singlePrintLevelsJSON := if singlePrintKeys = [] then "[]" else marshal singlePrintKeys
      unfinishedTop := sorted.any fun c => |c.price - high| < samePrice ∧ c.selVol = 0
      unfinishedBottom := sorted.any fun c => |c.price - low| < samePrice ∧ c.buyVol = 0 }

end Compute

/-! ### The longest run -/

theorem longestRun_append (flags : List Bool) (flag : Bool) :
    (flags ++ [flag]).foldl runStep (0, 0) = runStep (flags.foldl runStep (0, 0)) flag := by
  rw [List.foldl_append, List.foldl_cons, List.foldl_nil]

/-- The loop keeps the longest block and the block at the end. -/
theorem longestRun_spec (flags : List Bool) :
    LongestBlockOf true flags (longestRun flags) ∧
      LongestEnd true flags (flags.foldl runStep (0, 0)).2 := by
  induction flags using List.reverseRecOn with
  | nil => exact ⟨longestBlockOf_nil true, longestEnd_of_getLast?_ne (by simp)⟩
  | append_singleton flags flag ih =>
      obtain ⟨hblock, hend⟩ := ih
      rw [longestRun, longestRun_append]
      cases flag with
      | true => exact ⟨hblock.append hend.append, hend.append⟩
      | false =>
          have hend' : LongestEnd true (flags ++ [false]) 0 :=
            longestEnd_of_getLast?_ne (by simp)
          have hblock' := hblock.append hend'
          rw [Nat.max_zero] at hblock'
          exact ⟨hblock', hend'⟩

/-! ### Imbalance -/

/-- The imbalance signals of levels in the order of their prices. -/
structure IsImbalance (cells : List PricedCell) (r : ImbalanceSignals) : Prop where
  buyCount : r.buyCount = cells.countP PricedCell.buyImbalanced
  sellCount : r.sellCount = cells.countP PricedCell.sellImbalanced
  stackBuy : LongestBlockOf true (cells.map PricedCell.buyImbalanced) r.stackBuy
  stackSell : LongestBlockOf true (cells.map PricedCell.sellImbalanced) r.stackSell
  ratio : r.ratio * cells.length = r.buyCount - r.sellCount

/-- No level is imbalanced both ways. -/
theorem not_sellImbalanced {c : PricedCell} (h : c.buyImbalanced) : ¬ c.sellImbalanced := by
  simp only [PricedCell.buyImbalanced, PricedCell.sellImbalanced, decide_eq_true_eq] at h ⊢
  have hthree : mkRat 3 1 = (3 : ℚ) := by norm_num [Rat.mkRat_eq_div]
  rw [hthree] at h ⊢
  rintro ⟨hbuy, hsell⟩
  linarith [h.1, h.2]

variable {parseFloat : String → Option ℚ} {cells : List PricedCell}

theorem countP_imbalanced_le (cells : List PricedCell) :
    cells.countP PricedCell.buyImbalanced + cells.countP PricedCell.sellImbalanced ≤
      cells.length := by
  induction cells with
  | nil => exact le_refl 0
  | cons c cells ih =>
      rw [List.countP_cons, List.countP_cons, List.length_cons]
      by_cases hbuy : c.buyImbalanced
      · rw [if_pos hbuy, if_neg (not_sellImbalanced hbuy)]
        omega
      · rw [if_neg hbuy]
        split <;> omega

theorem IsImbalance.stack_le {r : ImbalanceSignals} (h : IsImbalance cells r) :
    r.stackBuy ≤ r.buyCount ∧ r.stackSell ≤ r.sellCount := by
  have hbuy := h.stackBuy.le_count
  have hsell := h.stackSell.le_count
  rw [List.count_eq_countP, List.countP_map] at hbuy hsell
  rw [h.buyCount, h.sellCount]
  refine ⟨hbuy.trans (le_of_eq ?_), hsell.trans (le_of_eq ?_)⟩ <;>
    exact List.countP_congr fun c _ => by simp

theorem IsImbalance.ratio_mem {r : ImbalanceSignals} (h : IsImbalance cells r) (hne : cells ≠ []) :
    r.ratio ∈ Set.Icc (-1) 1 := by
  have hlength : (0 : ℚ) < cells.length := by exact_mod_cast List.length_pos_of_ne_nil hne
  have hcounts : (r.buyCount : ℚ) + r.sellCount ≤ cells.length := by
    rw [h.buyCount, h.sellCount]
    exact_mod_cast countP_imbalanced_le cells
  have hbuy : (0 : ℚ) ≤ r.buyCount := Nat.cast_nonneg _
  have hsell : (0 : ℚ) ≤ r.sellCount := Nat.cast_nonneg _
  have hratio := h.ratio
  constructor
  · by_contra hlt
    have hmul := mul_lt_mul_of_pos_right (not_le.mp hlt) hlength
    linarith
  · by_contra hlt
    have hmul := mul_lt_mul_of_pos_right (not_le.mp hlt) hlength
    linarith

theorem isImbalance_computeImbalance (S : SliceSort PricedCell ℚ) (footprint : Footprint) :
    IsImbalance (S.sort PricedCell.price (cellsOf parseFloat footprint))
      (computeImbalance parseFloat S footprint) := by
  have hperm := S.perm PricedCell.price (cellsOf parseFloat footprint)
  unfold computeImbalance
  dsimp only
  split
  · next hnil =>
      rw [hnil] at hperm ⊢
      rw [hperm.eq_nil]
      exact ⟨rfl, rfl, longestBlockOf_nil true, longestBlockOf_nil true, by simp⟩
  · next hne =>
      refine ⟨rfl, rfl, (longestRun_spec _).1, (longestRun_spec _).1, ?_⟩
      have hlength : ((S.sort PricedCell.price (cellsOf parseFloat footprint)).length : ℚ) ≠ 0 := by
        rw [hperm.length_eq]
        exact_mod_cast (List.length_pos_of_ne_nil hne).ne'
      dsimp only
      rw [Rat.mkRat_eq_div, div_mul_cancel₀ _ hlength]
      push_cast
      rfl

theorem cellsOf_perm {footprint footprint' : Footprint}
    (h : footprint'.toFinmap = footprint.toFinmap) :
    (cellsOf parseFloat footprint').Perm (cellsOf parseFloat footprint) :=
  (AList.toFinmap_eq.mp h).filterMap _

/-- **The imbalance signals are counts and longest blocks over the price levels in the order of
their prices; no more levels than there are get counted, a stack is no higher than its count, and
the ratio lies between -1 and 1.  When no two texts denote one price, neither the order of the map
nor the sort decides them.** -/
theorem imbalance_signals (parseFloat : String → Option ℚ) (S : SliceSort PricedCell ℚ)
    (footprint : Footprint) :
    (∃ cells : List PricedCell, cells.Perm (cellsOf parseFloat footprint) ∧
      cells.Pairwise (fun c d => c.price ≤ d.price) ∧
      IsImbalance cells (computeImbalance parseFloat S footprint)) ∧
    (computeImbalance parseFloat S footprint).buyCount +
        (computeImbalance parseFloat S footprint).sellCount ≤
      (cellsOf parseFloat footprint).length ∧
    (computeImbalance parseFloat S footprint).stackBuy ≤
      (computeImbalance parseFloat S footprint).buyCount ∧
    (computeImbalance parseFloat S footprint).stackSell ≤
      (computeImbalance parseFloat S footprint).sellCount ∧
    (computeImbalance parseFloat S footprint).ratio ∈ Set.Icc (-1) 1 ∧
    ((∀ c ∈ cellsOf parseFloat footprint, ∀ d ∈ cellsOf parseFloat footprint,
        c.price = d.price → c = d) →
      ∀ (S' : SliceSort PricedCell ℚ) (footprint' : Footprint),
        footprint'.toFinmap = footprint.toFinmap →
        computeImbalance parseFloat S' footprint' = computeImbalance parseFloat S footprint) := by
  have his : IsImbalance _ (computeImbalance parseFloat S footprint) :=
    isImbalance_computeImbalance S footprint
  have hperm := S.perm PricedCell.price (cellsOf parseFloat footprint)
  refine ⟨⟨_, hperm, S.sorted _ _, his⟩, ?_, his.stack_le.1, his.stack_le.2, ?_, ?_⟩
  · rw [his.buyCount, his.sellCount, ← hperm.length_eq]
    exact countP_imbalanced_le _
  · by_cases hnil : cellsOf parseFloat footprint = []
    · rw [computeImbalance, if_pos hnil]
      constructor <;> norm_num
    · refine his.ratio_mem fun hsorted => hnil ?_
      rw [hsorted] at hperm
      exact hperm.nil_eq.symm
  · intro hprice S' footprint' hsame
    have hperm' : (cellsOf parseFloat footprint').Perm (cellsOf parseFloat footprint) :=
      cellsOf_perm hsame
    have hsorted : S'.sort PricedCell.price (cellsOf parseFloat footprint') =
        S.sort PricedCell.price (cellsOf parseFloat footprint) :=
      (SliceSort.sort_congr hperm'.symm hprice).symm
    have hnil : cellsOf parseFloat footprint' = [] ↔ cellsOf parseFloat footprint = [] :=
      ⟨fun hl => (hl ▸ hperm').nil_eq.symm, fun hl => (hl ▸ hperm').eq_nil⟩
    simp only [computeImbalance, hsorted, hnil]

/-- Two levels with buys and sells, in both orders of the map. -/
def twoSided : Footprint := [⟨"100", ⟨1, 4⟩⟩, ⟨"101", ⟨7, 2⟩⟩].toAList

def twoSided' : Footprint := [⟨"101", ⟨7, 2⟩⟩, ⟨"100", ⟨1, 4⟩⟩].toAList

theorem imbalance_signals_of_twoSided :
    computeImbalance priceOf .insertion twoSided' = computeImbalance priceOf .insertion twoSided ∧
      (computeImbalance priceOf .insertion twoSided).sellCount = 1 := by
  obtain ⟨-, -, -, -, -, horder⟩ := imbalance_signals priceOf .insertion twoSided
  exact ⟨horder (by decide +kernel) .insertion twoSided'
    (AList.toFinmap_eq.mpr (by decide +kernel)), by decide +kernel⟩

/-! ### The footprint of trades -/

/-- The trades at a price text. -/
def atLevel (level : String) (vs : List ValidTrade) : List ValidTrade :=
  vs.filter fun v => v.level = level

theorem footprint_lookup (vs : List ValidTrade) (level : String) :
    (vs.foldl Trades.record {}).footprintMap.lookup level =
      if atLevel level vs = [] then none
      else some ⟨volumeOf (buysOf (atLevel level vs)), volumeOf (sellsOf (atLevel level vs))⟩ := by
  induction vs using List.reverseRecOn with
  | nil => exact Finmap.lookup_empty level
  | append_singleton vs v ih =>
      rw [List.foldl_append, List.foldl_cons, List.foldl_nil, footprintMap_record]
      by_cases hlevel : v.level = level
      · have hat : atLevel level (vs ++ [v]) = atLevel level vs ++ [v] := by
          simp [atLevel, List.filter_append, hlevel]
        have hcell : (((vs.foldl Trades.record {}).footprintMap.lookup level).getD {} :
            FootprintCell) =
              ⟨volumeOf (buysOf (atLevel level vs)), volumeOf (sellsOf (atLevel level vs))⟩ := by
          rw [ih]
          split
          · next hnil =>
              rw [hnil]
              rfl
          · rfl
        rw [hlevel, Finmap.lookup_insert, hat, if_neg (List.concat_ne_nil v _), hcell,
          buysOf_append, sellsOf_append]
        by_cases hside : v.side = "buy"
        · rw [if_pos hside, if_pos hside, if_pos hside, volumeOf_append]
        · rw [if_neg hside, if_neg hside, if_neg hside, volumeOf_append]
      · have hat : atLevel level (vs ++ [v]) = atLevel level vs := by
          simp [atLevel, List.filter_append, hlevel]
        rw [Finmap.lookup_insert_of_ne _ (Ne.symm hlevel), ih, hat]

section Bar

variable {N : Numerics} {cs : List ApplyCall} {footprint : Footprint}

theorem validTrade_spec {v : ValidTrade} (h : v ∈ FullAccumulator.validTrades N cs) :
    N.parseFloat v.level = some v.price ∧ 0 < v.size := by
  obtain ⟨c, -, hc⟩ := List.mem_filterMap.mp h
  refine ⟨?_, ApplyCall.size_pos hc⟩
  unfold ApplyCall.validTrade at hc
  split at hc
  · obtain ⟨ps, hps, rfl⟩ := Option.map_eq_some_iff.mp hc
    exact (Accumulator.parseTrade_eq_some.mp hps).1
  · cases hc

theorem mem_cellsOf_iff {vs : List ValidTrade} (hvs : vs = FullAccumulator.validTrades N cs)
    (hfootprint : footprint.toFinmap = (vs.foldl Trades.record {}).footprintMap) {c : PricedCell} :
    c ∈ cellsOf N.parseFloat footprint ↔ ∃ v ∈ vs, c = ⟨v.level, v.price,
      volumeOf (buysOf (atLevel v.level vs)), volumeOf (sellsOf (atLevel v.level vs))⟩ := by
  have hmem : ∀ {key : String} {cell : FootprintCell}, (⟨key, cell⟩ : Sigma fun _ => _) ∈
      footprint.entries ↔ (if atLevel key vs = [] then none else some (FootprintCell.mk
        (volumeOf (buysOf (atLevel key vs))) (volumeOf (sellsOf (atLevel key vs))))) =
          some cell := by
    intro key cell
    rw [← footprint_lookup, ← hfootprint, Finmap.lookup_toFinmap]
    exact AList.mem_lookup_iff.symm
  constructor
  · intro hc
    obtain ⟨⟨key, cell⟩, he, hcell⟩ := List.mem_filterMap.mp hc
    obtain ⟨price, hprice, rfl⟩ := Option.map_eq_some_iff.mp hcell
    have hlookup := hmem.mp he
    split at hlookup
    · cases hlookup
    · next hne =>
        obtain rfl := Option.some.inj hlookup
        obtain ⟨v, hv⟩ := List.exists_mem_of_ne_nil _ hne
        obtain ⟨hvs', hlevel⟩ := List.mem_filter.mp hv
        obtain rfl : v.level = key := by simpa using hlevel
        refine ⟨v, hvs', ?_⟩
        have hparse := (validTrade_spec (hvs ▸ hvs')).1
        rw [show N.parseFloat v.level = some price from hprice] at hparse
        rw [Option.some.inj hparse]
  · rintro ⟨v, hv, rfl⟩
    have hne : atLevel v.level vs ≠ [] :=
      List.ne_nil_of_mem (List.mem_filter.mpr ⟨hv, decide_eq_true rfl⟩)
    refine List.mem_filterMap.mpr ⟨⟨v.level, _⟩, hmem.mpr (if_neg hne), ?_⟩
    rw [(validTrade_spec (hvs ▸ hv)).1]
    rfl

theorem volumeOf_eq_zero_iff {vs : List ValidTrade} (hsize : ∀ v ∈ vs, 0 < v.size) :
    volumeOf vs = 0 ↔ vs = [] := by
  constructor
  · intro hzero
    by_contra hne
    exact ((volumeOf_pos_iff hsize).mpr hne).ne' hzero
  · rintro rfl
    rfl

theorem volumeOf_sells_eq_zero_iff {vs : List ValidTrade} (hsize : ∀ v ∈ vs, 0 < v.size)
    (level : String) :
    volumeOf (sellsOf (atLevel level vs)) = 0 ↔ ∀ u ∈ vs, u.level = level → u.side = "buy" := by
  have hsells : ∀ v ∈ sellsOf (atLevel level vs), 0 < v.size :=
    fun v hv => hsize v (List.mem_of_mem_filter (List.mem_of_mem_filter hv))
  rw [volumeOf_eq_zero_iff hsells, sellsOf, List.filter_eq_nil_iff]
  constructor
  · intro hnone u hu hlevel
    by_contra hside
    exact hnone u (List.mem_filter.mpr ⟨hu, decide_eq_true hlevel⟩) (decide_eq_true hside)
  · intro hall u hu hside
    obtain ⟨hmem, hlevel⟩ := List.mem_filter.mp hu
    exact of_decide_eq_true hside (hall u hmem (of_decide_eq_true hlevel))

theorem volumeOf_buys_eq_zero_iff {vs : List ValidTrade} (hsize : ∀ v ∈ vs, 0 < v.size)
    (level : String) :
    volumeOf (buysOf (atLevel level vs)) = 0 ↔ ∀ u ∈ vs, u.level = level → u.side ≠ "buy" := by
  have hbuys : ∀ v ∈ buysOf (atLevel level vs), 0 < v.size :=
    fun v hv => hsize v (List.mem_of_mem_filter (List.mem_of_mem_filter hv))
  rw [volumeOf_eq_zero_iff hbuys, buysOf, List.filter_eq_nil_iff]
  constructor
  · intro hnone u hu hlevel hside
    exact hnone u (List.mem_filter.mpr ⟨hu, decide_eq_true hlevel⟩) (decide_eq_true hside)
  · intro hall u hu hside
    obtain ⟨hmem, hlevel⟩ := List.mem_filter.mp hu
    exact hall u hmem (of_decide_eq_true hlevel) (of_decide_eq_true hside)

theorem countP_singlePrint_lt {cells : List PricedCell} (hne : cells ≠ [])
    (hvol : ∀ c ∈ cells, 0 ≤ c.vol) (high low : ℚ) :
    cells.countP (PricedCell.singlePrint ((cells.map PricedCell.vol).sum / cells.length) high low) <
      cells.length := by
  refine lt_of_le_of_ne List.countP_le_length fun hall => ?_
  have hlength : (0 : ℚ) < cells.length := by exact_mod_cast List.length_pos_of_ne_nil hne
  have hsum : 0 ≤ (cells.map PricedCell.vol).sum := by
    refine List.sum_nonneg fun v hv => ?_
    obtain ⟨c, hc, rfl⟩ := List.mem_map.mp hv
    exact hvol c hc
  have hsmall : ∀ c ∈ cells, c.vol < mkRat 1 10 * ((cells.map PricedCell.vol).sum / cells.length) :=
    fun c hc => by
      have hprint := List.countP_eq_length.mp hall c hc
      simp only [PricedCell.singlePrint, decide_eq_true_eq] at hprint
      exact hprint.1
  have htenth : mkRat 1 10 * ((cells.map PricedCell.vol).sum / cells.length) * cells.length =
      (cells.map PricedCell.vol).sum / 10 := by
    rw [mul_assoc, div_mul_cancel₀ _ hlength.ne', Rat.mkRat_eq_div]
    push_cast
    ring
  have hle : (cells.map PricedCell.vol).sum ≤ (cells.map PricedCell.vol).sum / 10 := by
    rw [← htenth]
    have hcard := List.sum_le_card_nsmul (cells.map PricedCell.vol)
      (mkRat 1 10 * ((cells.map PricedCell.vol).sum / cells.length)) fun v hv => by
        obtain ⟨c, hc, rfl⟩ := List.mem_map.mp hv
        exact (hsmall c hc).le
    rwa [List.length_map, nsmul_eq_mul, mul_comm] at hcard
  have hzero : (cells.map PricedCell.vol).sum = 0 := by linarith
  obtain ⟨c, hc⟩ := List.exists_mem_of_ne_nil cells hne
  have hneg := hsmall c hc
  rw [hzero, zero_div, mul_zero] at hneg
  exact absurd (hvol c hc) (not_le.mpr hneg)

/-- **For the trades of a bar the top is unfinished exactly when some text of the high was only
bought at, the bottom when some text of the low was only sold at, and never all levels are single
prints.** -/
theorem auction_of_trades (S : SliceSort PricedCell ℚ) (marshal : List String → String)
    (hfootprint : footprint.toFinmap =
      ((FullAccumulator.validTrades N cs).foldl Trades.record {}).footprintMap) (high low : ℚ) :
    ((computeAuctionSignals N.parseFloat S marshal footprint high low).unfinishedTop ↔
      ∃ v ∈ FullAccumulator.validTrades N cs, |v.price - high| < samePrice ∧
        ∀ u ∈ FullAccumulator.validTrades N cs, u.level = v.level → u.side = "buy") ∧
    ((computeAuctionSignals N.parseFloat S marshal footprint high low).unfinishedBottom ↔
      ∃ v ∈ FullAccumulator.validTrades N cs, |v.price - low| < samePrice ∧
        ∀ u ∈ FullAccumulator.validTrades N cs, u.level = v.level → u.side ≠ "buy") ∧
    (FullAccumulator.validTrades N cs ≠ [] →
      (computeAuctionSignals N.parseFloat S marshal footprint high low).singlePrintCount <
        (cellsOf N.parseFloat footprint).length) := by
  generalize hvs : FullAccumulator.validTrades N cs = vs at *
  have hsize : ∀ v ∈ vs, 0 < v.size := fun v hv => (validTrade_spec (hvs ▸ hv)).2
  have hcells : ∀ c, c ∈ cellsOf N.parseFloat footprint ↔ _ := fun c =>
    mem_cellsOf_iff hvs.symm hfootprint
  have hperm := S.perm PricedCell.price (cellsOf N.parseFloat footprint)
  unfold computeAuctionSignals
  dsimp only
  split
  · next hnil =>
      have hnone : ∀ v ∈ vs, False := fun v hv => by
        have hmem := (hcells _).mpr ⟨v, hv, rfl⟩
        rw [hnil] at hmem
        cases hmem
      refine ⟨?_, ?_, fun hne => ?_⟩
      · refine iff_of_false Bool.false_ne_true ?_
        rintro ⟨v, hv, -⟩
        exact hnone v hv
      · refine iff_of_false Bool.false_ne_true ?_
        rintro ⟨v, hv, -⟩
        exact hnone v hv
      · obtain ⟨v, hv⟩ := List.exists_mem_of_ne_nil vs hne
        exact (hnone v hv).elim
  · next hne =>
      refine ⟨?_, ?_, fun _ => ?_⟩
      · rw [List.any_eq_true]
        constructor
        · rintro ⟨c, hc, hunfinished⟩
          obtain ⟨v, hv, rfl⟩ := (hcells c).mp (SliceSort.mem_sort.mp hc)
          obtain ⟨hhigh, hzero⟩ := of_decide_eq_true hunfinished
          exact ⟨v, hv, hhigh, (volumeOf_sells_eq_zero_iff hsize v.level).mp hzero⟩
        · rintro ⟨v, hv, hhigh, hbought⟩
          exact ⟨_, SliceSort.mem_sort.mpr ((hcells _).mpr ⟨v, hv, rfl⟩),
            decide_eq_true ⟨hhigh, (volumeOf_sells_eq_zero_iff hsize v.level).mpr hbought⟩⟩
      · rw [List.any_eq_true]
        constructor
        · rintro ⟨c, hc, hunfinished⟩
          obtain ⟨v, hv, rfl⟩ := (hcells c).mp (SliceSort.mem_sort.mp hc)
          obtain ⟨hlow, hzero⟩ := of_decide_eq_true hunfinished
          exact ⟨v, hv, hlow, (volumeOf_buys_eq_zero_iff hsize v.level).mp hzero⟩
        · rintro ⟨v, hv, hlow, hsold⟩
          exact ⟨_, SliceSort.mem_sort.mpr ((hcells _).mpr ⟨v, hv, rfl⟩),
            decide_eq_true ⟨hlow, (volumeOf_buys_eq_zero_iff hsize v.level).mpr hsold⟩⟩
      · rw [List.length_map, ← List.countP_eq_length_filter, hperm.countP_eq]
        refine countP_singlePrint_lt hne (fun c hc => ?_) high low
        obtain ⟨v, hv, rfl⟩ := (hcells c).mp hc
        have hnonneg : ∀ us : List ValidTrade, us ⊆ vs → 0 ≤ volumeOf us := fun us hus => by
          refine List.sum_nonneg fun x hx => ?_
          obtain ⟨u, hu, rfl⟩ := List.mem_map.mp hx
          exact (hsize u (hus hu)).le
        have hat : atLevel v.level vs ⊆ vs := fun u hu => List.mem_of_mem_filter hu
        exact add_nonneg (hnonneg _ fun u hu => hat (List.mem_of_mem_filter hu))
          (hnonneg _ fun u hu => hat (List.mem_of_mem_filter hu))

end Bar

/-! ### A buy at the high and a sell at the low -/

def priceNumerics : Numerics := ⟨priceOf, id, id⟩

def noQuote : BestQuote := ⟨"", "", "", ""⟩

def oneEach : List ApplyCall :=
  [⟨"101", "100", true, "buy", 0, noQuote, noQuote⟩,
    ⟨"99", "99", true, "sell", 0, noQuote, noQuote⟩]

def oneEachFootprint : Footprint :=
  ((∅ : Footprint).insert "101" ⟨mkRat 100 1, 0⟩).insert "99" ⟨0, mkRat 99 1⟩

theorem auction_of_oneEach :
    (computeAuctionSignals priceNumerics.parseFloat .insertion (fun _ => "") oneEachFootprint
      (mkRat 101 1) (mkRat 99 1)).unfinishedTop ∧
    (computeAuctionSignals priceNumerics.parseFloat .insertion (fun _ => "") oneEachFootprint
      (mkRat 101 1) (mkRat 99 1)).unfinishedBottom := by
  have hfootprint : oneEachFootprint.toFinmap =
      ((FullAccumulator.validTrades priceNumerics oneEach).foldl Trades.record {}).footprintMap := by
    decide +kernel
  obtain ⟨htop, hbottom, -⟩ := auction_of_trades .insertion (fun _ => "") hfootprint (mkRat 101 1)
    (mkRat 99 1)
  have htrades : FullAccumulator.validTrades priceNumerics oneEach =
      [⟨"101", mkRat 101 1, mkRat 100 1, "buy", 0, none⟩,
        ⟨"99", mkRat 99 1, mkRat 99 1, "sell", 0, none⟩] := by decide +kernel
  rw [htrades] at htop hbottom
  refine ⟨htop.mpr ⟨_, List.mem_cons_self, by decide +kernel, ?_⟩,
    hbottom.mpr ⟨_, List.mem_cons_of_mem _ List.mem_cons_self, by decide +kernel, ?_⟩⟩
  · simp
  · simp

end MagnumOpus.Candle
