import Mathlib.Analysis.Real.Sqrt
import MagnumOpus.Lib.Gini
import MagnumOpus.Lib.SeriesBlocks
import MagnumOpus.Lib.SeriesMoments
import MagnumOpus.Candle.BarTrades

/-! # Streaming statistics of the trades of a bar

Runs, ticks, the correlation of signs and the clustering of trades are kept by a few running
quantities. After any trades that count they are what one would compute from all trades at once
(`HasStats`): the longest block of equal sides, the rises and falls of neighbouring prices, the
covariance of the signs with those after them, and the Gini coefficient of the intervals. -/

namespace MagnumOpus.Candle

open Gini SeriesBlocks SeriesMoments

/-- The direction of a trade. -/
def ValidTrade.sign (v : ValidTrade) : ℤ := if v.side = "buy" then 1 else -1

def signsOf (vs : List ValidTrade) : List ℚ := vs.map fun v => (v.sign : ℚ)

/-- The signs of the trades, each with that of the next one. -/
def signPairs (vs : List ValidTrade) : List (ℚ × ℚ) := adjacent (signsOf vs)

/-- The intervals between trades; one that goes back in time counts as nothing. -/
def intervalsOf (vs : List ValidTrade) : List ℤ :=
  (adjacent (vs.map ValidTrade.tsMs)).map fun p => max 0 (p.2 - p.1).toInt

/-- The Gini coefficient. -/
def giniOf (xs : List ℤ) : ℚ :=
  ((absDiffs xs : ℤ) : ℚ) / (((2 : ℕ) : ℚ) * xs.length * (xs.sum : ℤ))

/-! ### The invariant -/

/-- The running quantities after the trades that count. -/
structure Stats (vs : List ValidTrade) (t : Trades) : Prop where
  count : t.tradeCount = vs.length
  runSide : ∀ v ∈ vs.getLast?, t.consecutiveRunSide = v.side
  run : ∀ v ∈ vs.getLast?, LongestEnd v.side (vs.map ValidTrade.side) t.consecutiveRunLen
  longest : LongestBlock (vs.map ValidTrade.side) t.maxConsecutiveRun
  close : ∀ v ∈ vs.getLast?, t.close = v.price
  upticks : t.uptickCount =
    (adjacent (vs.map ValidTrade.price)).countP fun p => decide (p.1 < p.2)
  downticks : t.downtickCount =
    (adjacent (vs.map ValidTrade.price)).countP fun p => decide (p.2 < p.1)
  sumSigns : (t.sumSigns : ℚ) = (signsOf vs).sum
  sumSignPairs : (t.sumSignPairs : ℚ) = ((signPairs vs).map fun p => p.1 * p.2).sum
  firstSign : ∀ v ∈ vs.head?, t.firstSign = v.sign
  lastSign : ∀ v ∈ vs.getLast?, t.lastSign = v.sign
  timestamps : t.tradeTimestamps = vs.map ValidTrade.tsMs

theorem stats_nil : Stats [] {} where
  count := rfl
  runSide := fun v hv => by cases hv
  run := fun v hv => by cases hv
  longest := longestBlock_nil
  close := fun v hv => by cases hv
  upticks := rfl
  downticks := rfl
  sumSigns := by simp [signsOf]
  sumSignPairs := by simp [signPairs, signsOf]
  firstSign := fun v hv => by cases hv
  lastSign := fun v hv => by cases hv
  timestamps := rfl

section Record

variable {vs : List ValidTrade} {t : Trades} (h : Stats vs t) (v : ValidTrade)

include h

theorem Stats.first_of_none (hlast : vs.getLast? = none) : t.tradeCount = 0 := by
  rw [h.count, List.getLast?_eq_none_iff.mp hlast, List.length_nil]

theorem Stats.not_first {u : ValidTrade} (hlast : vs.getLast? = some u) : t.tradeCount ≠ 0 := by
  rw [h.count]
  rintro hlength
  rw [List.length_eq_zero_iff.mp hlength] at hlast
  cases hlast

/-- The block at the end goes on with an equal side, and else starts over. -/
theorem Stats.record_run :
    LongestEnd v.side ((vs ++ [v]).map ValidTrade.side) (t.record v).consecutiveRunLen := by
  have hrun : (t.record v).consecutiveRunLen =
      if t.tradeCount ≠ 0 ∧ v.side = t.consecutiveRunSide then t.consecutiveRunLen + 1 else 1 := by
    simp [Trades.record, Accumulator.applyTrade]
  rw [List.map_append, List.map_singleton, hrun]
  cases hlast : vs.getLast? with
  | none =>
      rw [if_neg fun hne => hne.1 (h.first_of_none hlast)]
      apply LongestEnd.append
      apply longestEnd_of_getLast?_ne
      rw [List.getLast?_map, hlast]
      exact (Option.some_ne_none v.side).symm
  | some u =>
      have hside := h.runSide u hlast
      by_cases heq : v.side = t.consecutiveRunSide
      · rw [if_pos ⟨h.not_first hlast, heq⟩, heq, hside]
        exact (h.run u hlast).append
      · rw [if_neg fun hand => heq hand.2]
        apply LongestEnd.append
        apply longestEnd_of_getLast?_ne
        rw [List.getLast?_map, hlast]
        intro hu
        exact heq ((Option.some.inj hu).symm.trans hside.symm)

theorem Stats.record_ticks :
    (t.record v).uptickCount = (adjacent ((vs ++ [v]).map ValidTrade.price)).countP
      (fun p => decide (p.1 < p.2)) ∧
    (t.record v).downtickCount = (adjacent ((vs ++ [v]).map ValidTrade.price)).countP
      fun p => decide (p.2 < p.1) := by
  have hup : (t.record v).uptickCount =
      if t.tradeCount ≠ 0 ∧ t.close < v.price then t.uptickCount + 1 else t.uptickCount := by
    simp [Trades.record, Accumulator.applyTrade]
  have hdown : (t.record v).downtickCount =
      if t.tradeCount ≠ 0 ∧ v.price < t.close then t.downtickCount + 1 else t.downtickCount := by
    simp [Trades.record, Accumulator.applyTrade]
  rw [List.map_append, List.map_singleton, adjacent_append, List.countP_append,
    List.countP_append, ← h.upticks, ← h.downticks, List.getLast?_map, hup, hdown]
  cases hlast : vs.getLast? with
  | none =>
      have hfirst := h.first_of_none hlast
      simp [hfirst]
  | some u =>
      have hfirst := h.not_first hlast
      rw [h.close u hlast]
      by_cases hlt : u.price < v.price
      · simp [hfirst, hlt, hlt.le]
      · by_cases hgt : v.price < u.price
        · simp [hfirst, hlt, hgt]
        · simp [hfirst, hlt, hgt]

theorem Stats.record_signs :
    ((t.record v).sumSigns : ℚ) = (signsOf (vs ++ [v])).sum ∧
    ((t.record v).sumSignPairs : ℚ) = ((signPairs (vs ++ [v])).map fun p => p.1 * p.2).sum := by
  have hsum : (t.record v).sumSigns = t.sumSigns + v.sign := by
    simp [Trades.record, Accumulator.applyTrade, ValidTrade.sign]
  have hpairs : (t.record v).sumSignPairs =
      if t.tradeCount = 0 then t.sumSignPairs else t.sumSignPairs + t.lastSign * v.sign := by
    simp [Trades.record, Accumulator.applyTrade, ValidTrade.sign]
  have hsigns : signsOf (vs ++ [v]) = signsOf vs ++ [(v.sign : ℚ)] := List.map_append
  unfold signPairs
  rw [hsum, hpairs, hsigns, adjacent_append, List.map_append, List.sum_append, List.sum_append]
  have hsumSigns := h.sumSigns
  have hsumSignPairs := h.sumSignPairs
  unfold signPairs at hsumSignPairs
  refine ⟨by simp [hsumSigns], ?_⟩
  have hlastSign : (signsOf vs).getLast? = vs.getLast?.map fun u => (u.sign : ℚ) :=
    List.getLast?_map
  rw [← hsumSignPairs, hlastSign]
  cases hlast : vs.getLast? with
  | none => simp [h.first_of_none hlast]
  | some u => simp [h.not_first hlast, h.lastSign u hlast]

theorem Stats.record : Stats (vs ++ [v]) (t.record v) := by
  have hrun := h.record_run v
  obtain ⟨hup, hdown⟩ := h.record_ticks v
  obtain ⟨hsum, hpairs⟩ := h.record_signs v
  have hlast : ∀ u ∈ (vs ++ [v]).getLast?, u = v := by
    intro u hu
    rw [List.getLast?_concat] at hu
    exact (Option.mem_some_iff.mp hu).symm
  constructor
  case count =>
    show t.tradeCount + 1 = (vs ++ [v]).length
    rw [h.count, List.length_append, List.length_singleton]
  case runSide =>
    intro u hu
    rw [hlast u hu]
    rfl
  case run =>
    intro u hu
    rw [hlast u hu]
    exact hrun
  case longest =>
    have hmax : (t.record v).maxConsecutiveRun =
        max t.maxConsecutiveRun (t.record v).consecutiveRunLen := (max_def_lt _ _).symm
    rw [hmax]
    rw [List.map_append, List.map_singleton] at hrun ⊢
    exact h.longest.append hrun
  case close =>
    intro u hu
    rw [hlast u hu]
    rfl
  case upticks => exact hup
  case downticks => exact hdown
  case sumSigns => exact hsum
  case sumSignPairs => exact hpairs
  case firstSign =>
    intro u hu
    have hfirst : (t.record v).firstSign = if t.tradeCount = 0 then v.sign else t.firstSign := by
      simp [Trades.record, Accumulator.applyTrade, ValidTrade.sign]
    rw [hfirst, h.count]
    cases vs with
    | nil => rw [← Option.mem_some_iff.mp hu, List.length_nil, if_pos rfl]
    | cons w ws =>
        rw [if_neg (List.length_pos_of_ne_nil (List.cons_ne_nil w ws)).ne']
        exact h.firstSign u hu
  case lastSign =>
    intro u hu
    rw [hlast u hu]
    simp [Trades.record, Accumulator.applyTrade, ValidTrade.sign]
  case timestamps =>
    rw [List.map_append, ← h.timestamps]
    rfl

end Record

theorem stats_foldl (vs : List ValidTrade) : Stats vs (vs.foldl Trades.record {}) := by
  induction vs using List.reverseRecOn with
  | nil => exact stats_nil
  | append_singleton vs v ih =>
      rw [List.foldl_append, List.foldl_cons, List.foldl_nil]
      exact ih.record v

/-! ### Signs -/

theorem signsOf_sq {vs : List ValidTrade} : ∀ s ∈ signsOf vs, s ^ 2 = 1 := by
  intro s hs
  obtain ⟨v, -, rfl⟩ := List.mem_map.mp hs
  unfold ValidTrade.sign
  split <;> norm_num

theorem variance_of_sq {xs : List ℚ} (hne : xs ≠ []) (hsq : ∀ x ∈ xs, x ^ 2 = 1) :
    variance xs = 1 - mean xs * mean xs := by
  have hlength : (xs.length : ℚ) ≠ 0 := Nat.cast_ne_zero.mpr (mt List.length_eq_zero_iff.mp hne)
  have hsum : (xs.map fun x => x ^ 2).sum = (xs.length : ℚ) := by
    rw [List.map_congr_left hsq, List.map_const', List.sum_replicate, nsmul_one]
  rw [variance_eq, hsum, div_self hlength]

section Signs

variable {vs : List ValidTrade} {t : Trades} (h : Stats vs t) (hlength : 2 ≤ vs.length)

include h hlength

/-- The means of the signs: all but the last one, and all but the first. -/
theorem Stats.means :
    mean ((signPairs vs).map Prod.fst) =
      ((t.sumSigns - t.lastSign : ℤ) : ℚ) / ((t.tradeCount - 1 : ℕ) : ℚ) ∧
    mean ((signPairs vs).map Prod.snd) =
      ((t.sumSigns - t.firstSign : ℤ) : ℚ) / ((t.tradeCount - 1 : ℕ) : ℚ) := by
  have hcount : (signPairs vs).length = t.tradeCount - 1 := by
    rw [signPairs, length_adjacent, signsOf, List.length_map, h.count]
  have hne : vs ≠ [] := by
    rintro rfl
    simp at hlength
  unfold mean
  rw [List.length_map, List.length_map, hcount]
  constructor
  · congr 1
    have hdrop : (signsOf vs).dropLast.sum + ((vs.getLast hne).sign : ℚ) = (signsOf vs).sum := by
      unfold signsOf
      conv_rhs => rw [← List.dropLast_append_getLast hne]
      rw [List.map_append, List.sum_append, List.map_dropLast]
      simp
    rw [signPairs, map_fst_adjacent, Int.cast_sub, h.sumSigns,
      h.lastSign _ (List.getLast?_eq_some_getLast hne), ← hdrop, add_sub_cancel_right]
  · congr 1
    rw [signPairs, map_snd_adjacent, Int.cast_sub, h.sumSigns]
    cases vs with
    | nil => exact absurd rfl hne
    | cons v vs =>
        rw [h.firstSign v rfl]
        simp [signsOf]

/-- The correlation is that of the pairs of signs. -/
theorem Stats.autocorr (F : Features) :
    FullAccumulator.tradeSignAutocorr F t =
      if 0 < variance ((signPairs vs).map Prod.fst) ∧
          0 < variance ((signPairs vs).map Prod.snd) then
        some (covariance (signPairs vs) / F.sqrt (variance ((signPairs vs).map Prod.fst) *
          variance ((signPairs vs).map Prod.snd)))
      else none := by
  obtain ⟨hfst, hsnd⟩ := h.means hlength
  have hcount : (signPairs vs).length = t.tradeCount - 1 := by
    rw [signPairs, length_adjacent, signsOf, List.length_map, h.count]
  have hpairs : signPairs vs ≠ [] := by
    intro hnil
    rw [hnil, h.count, List.length_nil] at hcount
    omega
  have hsqfst : ∀ x ∈ (signPairs vs).map Prod.fst, x ^ 2 = 1 := by
    intro x hx
    rw [signPairs, map_fst_adjacent] at hx
    exact signsOf_sq x (List.mem_of_mem_dropLast hx)
  have hsqsnd : ∀ x ∈ (signPairs vs).map Prod.snd, x ^ 2 = 1 := by
    intro x hx
    rw [signPairs, map_snd_adjacent] at hx
    exact signsOf_sq x (List.mem_of_mem_tail hx)
  rw [variance_of_sq (by simpa using hpairs) hsqfst, variance_of_sq (by simpa using hpairs) hsqsnd,
    covariance_eq, hfst, hsnd, ← h.sumSignPairs, hcount]
  rfl

end Signs

/-- The product of the variances. -/
def varianceProduct (ps : List (ℚ × ℚ)) : ℚ :=
  variance (ps.map Prod.fst) * variance (ps.map Prod.snd)

/-- A covariance over the root of the product of the variances. -/
theorem covariance_div_mem_Icc (ps : List (ℚ × ℚ)) {s : ℝ} (hs : 0 ≤ s)
    (hsq : s * s = ((varianceProduct ps : ℚ) : ℝ)) :
    ((covariance ps : ℚ) : ℝ) / s ∈ Set.Icc (-1) 1 := by
  have hcov : ((covariance ps : ℚ) : ℝ) ^ 2 ≤ s ^ 2 := by
    rw [sq s, hsq]
    exact_mod_cast covariance_sq_le ps
  have habs : |((covariance ps : ℚ) : ℝ)| ≤ s := by
    rw [← abs_of_nonneg hs]
    exact sq_le_sq.mp hcov
  rw [Set.mem_Icc, ← abs_le, abs_div, abs_of_nonneg hs]
  exact div_le_one_of_le₀ habs hs

/-! ### Intervals -/

theorem intervalsOf_nonneg {vs : List ValidTrade} : ∀ d ∈ intervalsOf vs, 0 ≤ d := by
  intro d hd
  obtain ⟨p, -, rfl⟩ := List.mem_map.mp hd
  exact le_max_left 0 _

theorem sum_intervalsOf_of_short {vs : List ValidTrade} (h : vs.length < 2) :
    (intervalsOf vs).sum = 0 := by
  have hnil : intervalsOf vs = [] := by
    rw [← List.length_eq_zero_iff, intervalsOf, List.length_map, length_adjacent, List.length_map]
    omega
  rw [hnil]
  rfl

theorem giniOf_mem {xs : List ℤ} (hnonneg : ∀ x ∈ xs, 0 ≤ x) (hsum : xs.sum ≠ 0) :
    giniOf xs ∈ Set.Ico 0 1 := by
  have hpos : 0 < xs.sum := lt_of_le_of_ne (List.sum_nonneg hnonneg) hsum.symm
  have hlength : 0 < (xs.length : ℤ) := by
    rw [Int.natCast_pos, List.length_pos_iff]
    rintro rfl
    exact hsum rfl
  have hperm : (xs.insertionSort (· ≤ ·)).Perm xs := List.perm_insertionSort _ xs
  have hsorted := two_mul_rankSum (List.pairwise_insertionSort (· ≤ ·) xs)
  have hrank := rankSum_add_sum_le fun x hx => hnonneg x (hperm.mem_iff.mp hx)
  rw [absDiffs_perm hperm] at hsorted
  rw [hperm.sum_eq, hperm.length_eq] at hrank
  have hdiffs : absDiffs xs < 2 * xs.length * xs.sum := by linarith
  have hdenom : (0 : ℚ) < ((2 : ℕ) : ℚ) * xs.length * (xs.sum : ℤ) := by
    exact_mod_cast mul_pos (mul_pos two_pos hlength) hpos
  unfold giniOf
  rw [Set.mem_Ico, div_lt_one hdenom]
  refine ⟨div_nonneg (by exact_mod_cast absDiffs_nonneg xs) hdenom.le, ?_⟩
  exact_mod_cast hdiffs

/-- The clustering of a bar is the Gini coefficient of its intervals. -/
theorem computeGini_eq (vs : List ValidTrade) :
    computeGini (vs.map ValidTrade.tsMs) =
      if (intervalsOf vs).sum = 0 then none else some (giniOf (intervalsOf vs)) := by
  have hintervals : List.zipWith (fun a b : Int64 => max 0 (b - a).toInt)
      (vs.map ValidTrade.tsMs) (vs.map ValidTrade.tsMs).tail = intervalsOf vs := by
    unfold intervalsOf adjacent
    rw [List.map_zip_eq_zipWith]
    rfl
  have hperm : ((intervalsOf vs).insertionSort (· ≤ ·)).Perm (intervalsOf vs) :=
    List.perm_insertionSort _ _
  have hweighted : (((intervalsOf vs).insertionSort (· ≤ ·)).mapIdx fun i x =>
      (2 * (i : ℤ) - ((intervalsOf vs).length : ℤ) + 1) * x).sum =
      rankSum ((intervalsOf vs).insertionSort (· ≤ ·)) := by
    rw [← hperm.length_eq]
    rfl
  have hrank := two_mul_rankSum (List.pairwise_insertionSort (· ≤ ·) (intervalsOf vs))
  rw [absDiffs_perm hperm] at hrank
  unfold computeGini
  simp only [hintervals, hperm.sum_eq, hperm.length_eq, hweighted]
  by_cases hsum : (intervalsOf vs).sum = 0
  · rw [if_pos (.inr hsum), if_pos hsum]
  · have hmany : ¬ ((vs.map ValidTrade.tsMs).length < 2 ∨ (intervalsOf vs).sum = 0) := by
      rintro (hshort | hzero)
      · rw [List.length_map] at hshort
        exact hsum (sum_intervalsOf_of_short hshort)
      · exact hsum hzero
    rw [if_neg hmany, if_neg hsum, giniOf, ← hrank]
    rw [Int.cast_mul, Int.cast_ofNat, Nat.cast_ofNat, mul_assoc,
      mul_div_mul_left _ _ (two_ne_zero' ℚ)]
    rfl

/-! ### The bar -/

/-- The statistics of a bar are those of all its trades. -/
structure HasStats (F : Features) (vs : List ValidTrade) (bar : FullBar) : Prop where
  run : ∃ n, LongestBlock (vs.map ValidTrade.side) n ∧ bar.maxConsecutiveRun = onTrades vs n
  upticks : bar.uptickCount =
    onTrades vs ((adjacent (vs.map ValidTrade.price)).countP fun p => decide (p.1 < p.2))
  downticks : bar.downtickCount =
    onTrades vs ((adjacent (vs.map ValidTrade.price)).countP fun p => decide (p.2 < p.1))
  autocorr : bar.tradeSignAutocorr =
    if 2 ≤ vs.length ∧ 0 < variance ((signPairs vs).map Prod.fst) ∧
        0 < variance ((signPairs vs).map Prod.snd) then
      some (covariance (signPairs vs) / F.sqrt (varianceProduct (signPairs vs)))
    else none
  /-- With the real root the value is a correlation. -/
  autocorr_mem : ((covariance (signPairs vs) : ℚ) : ℝ) /
      Real.sqrt ((varianceProduct (signPairs vs) : ℚ) : ℝ) ∈ Set.Icc (-1 : ℝ) 1
  /-- So it is with any root that is exact. -/
  reported_mem : ∀ r, bar.tradeSignAutocorr = some r →
    0 ≤ F.sqrt (varianceProduct (signPairs vs)) →
    F.sqrt (varianceProduct (signPairs vs)) * F.sqrt (varianceProduct (signPairs vs)) =
      varianceProduct (signPairs vs) →
    r ∈ Set.Icc (-1 : ℚ) 1
  clustering : bar.tradeClustering =
    if (intervalsOf vs).sum = 0 then none else some (giniOf (intervalsOf vs))
  clustering_mem : ∀ g, bar.tradeClustering = some g → g ∈ Set.Ico (0 : ℚ) 1

theorem Stats.hasStats {vs : List ValidTrade} {a : FullAccumulator} (h : Stats vs a.trades)
    (htally : Tally vs a.trades) (F : Features) (tsSecMs : Int64) (isPartial : Bool) :
    HasStats F vs (a.currentBar F tsSecMs isPartial) := by
  have hautocorr : (a.currentBar F tsSecMs isPartial).tradeSignAutocorr =
      if 2 ≤ vs.length ∧ 0 < variance ((signPairs vs).map Prod.fst) ∧
          0 < variance ((signPairs vs).map Prod.snd) then
        some (covariance (signPairs vs) / F.sqrt (varianceProduct (signPairs vs)))
      else none := by
    show (if a.trades.tradeCount < 2 then none
      else FullAccumulator.tradeSignAutocorr F a.trades) = _
    rw [h.count]
    by_cases hlength : 2 ≤ vs.length
    · rw [if_neg (not_lt.mpr hlength), h.autocorr hlength]
      simp only [hlength, true_and]
      rfl
    · rw [if_pos (not_le.mp hlength), if_neg fun hand => hlength hand.1]
  have hclustering : (a.currentBar F tsSecMs isPartial).tradeClustering =
      if (intervalsOf vs).sum = 0 then none else some (giniOf (intervalsOf vs)) := by
    show (if a.trades.tradeCount < 2 then none else computeGini a.trades.tradeTimestamps) = _
    rw [h.count, h.timestamps, computeGini_eq]
    by_cases hlength : vs.length < 2
    · rw [if_pos hlength, if_pos (sum_intervalsOf_of_short hlength)]
    · rw [if_neg hlength]
  constructor
  case run => exact ⟨a.trades.maxConsecutiveRun, h.longest, onTrade_eq htally _⟩
  case upticks => exact (onTrade_eq htally _).trans (congrArg (onTrades vs) h.upticks)
  case downticks => exact (onTrade_eq htally _).trans (congrArg (onTrades vs) h.downticks)
  case autocorr => exact hautocorr
  case autocorr_mem =>
    apply covariance_div_mem_Icc _ (Real.sqrt_nonneg _)
    rw [Real.mul_self_sqrt]
    have hnonneg := (sq_nonneg _).trans (covariance_sq_le (signPairs vs))
    exact_mod_cast hnonneg
  case reported_mem =>
    intro r hr hroot hsq
    rw [hautocorr] at hr
    split at hr
    · have hroot' : (0 : ℝ) ≤ ((F.sqrt (varianceProduct (signPairs vs)) : ℚ) : ℝ) := by
        exact_mod_cast hroot
      have hmem := covariance_div_mem_Icc (signPairs vs) hroot' (by exact_mod_cast hsq)
      rw [← Option.some.inj hr]
      rw [Set.mem_Icc] at hmem ⊢
      exact ⟨by exact_mod_cast hmem.1, by exact_mod_cast hmem.2⟩
    · cases hr
  case clustering => exact hclustering
  case clustering_mem =>
    intro g hg
    rw [hclustering] at hg
    split at hg
    · cases hg
    next hsum =>
      rw [← Option.some.inj hg]
      exact giniOf_mem intervalsOf_nonneg hsum

/-- **The streaming statistics of a bar are the batch statistics of its trades, whatever the ticks
are.** -/
theorem hasStats_applyCalls (N : Numerics) (F : Features) (a : FullAccumulator)
    (cs : List ApplyCall) (tsSecMs : Int64) (isPartial : Bool) :
    HasStats F (FullAccumulator.validTrades N cs)
      ((a.barReset.applyCalls N cs).currentBar F tsSecMs isPartial) := by
  have htrades := FullAccumulator.trades_applyCalls N cs a.barReset
  apply Stats.hasStats
  · rw [htrades]
    exact stats_foldl _
  · rw [htrades]
    exact (tally_foldl _).1

end MagnumOpus.Candle
