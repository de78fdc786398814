import MagnumOpus.Lib.LogSquare
import MagnumOpus.Ml.FeatureCausality
import MagnumOpus.Ml.Spread

/-!
# Training and live spreads differ

The two filters start differently, so their variances differ from the first bar on: they could
meet only if the squared logarithm of the first ETH mid were `1 / 100001000`, which no rational
price has.  Hence the hedge ratios agree exactly while no bar moves them, that is while the ETH
mid is one or the two mids are equal.  The z-scores divide by different deviations and agree only
where the spread is the mean of its window and the window is not constant
(`spreadsAgree_iff`).
-/

namespace MagnumOpus
namespace Ml

/-! ### Tables -/

section tables

variable {K : Type*} [Field K]

/-- The spreads of observations under hedge ratios. -/
def spreadsOf (obs : List (K × K)) (hedges : List K) : List K :=
  List.zipWith (fun o b => o.1 - b * o.2) obs hedges

/-- Two tables of the same observations agree when the hedge ratios do and the z-scores do at
every row. -/
theorem spreadRows_eq_iff {z z' : List K → Option K} {seen : List K} {obs : List (K × K)}
    {hedges hedges' : List K} (h : hedges.length = obs.length)
    (h' : hedges'.length = obs.length) :
    spreadRows z seen obs hedges = spreadRows z' seen obs hedges' ↔
      hedges = hedges' ∧ ∀ i < obs.length,
        z (seen ++ (spreadsOf obs hedges).take (i + 1))
          = z' (seen ++ (spreadsOf obs hedges).take (i + 1)) := by
  induction obs generalizing seen hedges hedges' with
  | nil =>
      rw [List.length_nil, List.length_eq_zero_iff] at h h'
      rw [h, h']
      simp [spreadRows]
  | cons o obs ih =>
      obtain ⟨b, hedges, rfl⟩ := List.exists_cons_of_length_eq_add_one h
      obtain ⟨b', hedges', rfl⟩ := List.exists_cons_of_length_eq_add_one h'
      rw [spreadRows, spreadRows, List.cons.injEq, SpreadRow.mk.injEq, List.cons.injEq]
      have hspreads : spreadsOf (o :: obs) (b :: hedges)
          = (o.1 - b * o.2) :: spreadsOf obs hedges := rfl
      rw [hspreads]
      constructor
      · rintro ⟨⟨rfl, -, hz⟩, hrest⟩
        rw [ih (Nat.succ.inj h) (Nat.succ.inj h')] at hrest
        refine ⟨⟨rfl, hrest.1⟩, ?_⟩
        intro i hi
        cases i with
        | zero => simpa using hz
        | succ i =>
            have hzi := hrest.2 i (by rw [List.length_cons] at hi; omega)
            rwa [List.append_assoc, List.singleton_append] at hzi
      · rintro ⟨⟨rfl, rfl⟩, hz⟩
        refine ⟨⟨rfl, rfl, ?_⟩, ?_⟩
        · simpa using hz 0 (by rw [List.length_cons]; omega)
        · rw [ih (Nat.succ.inj h) (Nat.succ.inj h')]
          refine ⟨rfl, ?_⟩
          intro i hi
          have hzi := hz (i + 1) (by rw [List.length_cons]; omega)
          rw [List.take_succ_cons] at hzi
          rwa [List.append_assoc, List.singleton_append]

/-- The logarithms of a bar. -/
def logs (N : Numerics K) (m : Mids) : K × K := (N.log (m.btc : K), N.log (m.eth : K))

theorem clippedLogs_eq {N : Numerics K} {m : Mids} (hbtc : clipFloor ≤ m.btc)
    (heth : clipFloor ≤ m.eth) : clippedLogs N m = logs N m := by
  unfold clippedLogs logs
  rw [max_eq_left hbtc, max_eq_left heth]

variable [LinearOrder K]

/-- On bars with positive mids the loop fills the table of its own filter. -/
theorem rows_eq_spreadRows {N : Numerics K} {bars : List Mids}
    (hpos : ∀ m ∈ bars, 0 < m.btc ∧ 0 < m.eth) (k : Kalman.State K) (seen : List K) :
    SpreadLoop.rows N ⟨k, trailing zWindow seen⟩ bars
      = (spreadRows (fun spreads => liveZscore N (trailing zWindow spreads)) seen
          (bars.map (logs N))
          ((Kalman.run noiseQ noiseR k (bars.map (logs N))).map Kalman.State.beta)).map some := by
  induction bars generalizing k seen with
  | nil => rfl
  | cons m bars ih =>
      rw [List.forall_mem_cons] at hpos
      have hskip : ¬ (m.btc ≤ 0 ∨ m.eth ≤ 0) := by
        rw [not_or, not_le, not_le]
        exact hpos.1
      have hstep : SpreadLoop.step N ⟨k, trailing zWindow seen⟩ m
          = (⟨Kalman.update noiseQ noiseR k (logs N m), trailing zWindow (seen ++
              [(logs N m).1 - (Kalman.update noiseQ noiseR k (logs N m)).beta * (logs N m).2])⟩,
            some ⟨(Kalman.update noiseQ noiseR k (logs N m)).beta,
              (logs N m).1 - (Kalman.update noiseQ noiseR k (logs N m)).beta * (logs N m).2,
              liveZscore N (trailing zWindow (seen ++ [(logs N m).1
                - (Kalman.update noiseQ noiseR k (logs N m)).beta * (logs N m).2]))⟩) := by
        unfold SpreadLoop.step
        rw [if_neg hskip]
        simp only
        rw [trailing_append_singleton]
        rfl
      rw [SpreadLoop.rows, hstep, ih hpos.2]
      rfl

/-- A bar without two positive mids leaves a row that is not computed. -/
theorem none_mem_rows {N : Numerics K} {bars : List Mids} {m : Mids} (hm : m ∈ bars)
    (hskip : m.btc ≤ 0 ∨ m.eth ≤ 0) (s : SpreadLoop K) : none ∈ s.rows N bars := by
  induction bars generalizing s with
  | nil => cases hm
  | cons m' bars ih =>
      rw [SpreadLoop.rows, List.mem_cons]
      rcases List.mem_cons.mp hm with rfl | hm
      · left
        unfold SpreadLoop.step
        rw [if_pos hskip]
      · exact Or.inr (ih hm _)

theorem pos_of_spreadsAgree {N : Numerics K} {bars : List Mids} (h : SpreadsAgree N bars) :
    ∀ m ∈ bars, 0 < m.btc ∧ 0 < m.eth := by
  intro m hm
  by_contra hpos
  have hskip : m.btc ≤ 0 ∨ m.eth ≤ 0 := by
    rwa [not_and_or, not_lt, not_lt] at hpos
  have hnone := none_mem_rows (N := N) hm hskip SpreadLoop.init
  rw [h, List.mem_map] at hnone
  obtain ⟨_, -, hrow⟩ := hnone
  cases hrow

theorem kalmanHedge_length (obs : List (K × K)) : (kalmanHedge obs).length = obs.length := by
  cases obs with
  | nil => rfl
  | cons o obs => simp [kalmanHedge]

end tables

/-! ### Hedge ratios -/

section hedges

variable {K : Type*} [Field K] [LinearOrder K] [IsStrictOrderedRing K]

/-- The bar does not move a hedge ratio of one. -/
def Fits (o : K × K) : Prop := o.2 = 0 ∨ o.1 = 1 * o.2

theorem noiseQ_nonneg : (0 : K) ≤ noiseQ := by
  unfold noiseQ
  positivity

theorem noiseR_pos : (0 : K) < noiseR := by
  unfold noiseR
  positivity

theorem one_add_noiseQ_pos : (0 : K) < 1 + noiseQ := by
  have := noiseQ_nonneg (K := K)
  linarith

/-- The generator starts with the loop's first hedge ratio only on a bar that does not move it. -/
theorem first_hedge_eq_iff (o : K × K) :
    (if o.2 ≠ 0 then o.1 / o.2 else 1)
        = (Kalman.update noiseQ noiseR (⟨1, 1⟩ : Kalman.State K) o).beta ↔ Fits o := by
  by_cases hH : o.2 = 0
  · rw [if_neg (not_not.mpr hH), Kalman.update_beta_eq_self (Or.inl hH)]
    exact iff_of_true rfl (Or.inl hH)
  · rw [if_pos hH, Kalman.update_beta]
    constructor
    · intro h
      right
      by_contra hne
      have hgain : (0 : K) < 1 - Kalman.gain noiseR (1 + noiseQ) o.2 * o.2 :=
        Kalman.one_sub_gain_mul_pos noiseR_pos one_add_noiseQ_pos
      rw [div_eq_iff hH] at h
      have hfactor : (1 - Kalman.gain noiseR (1 + noiseQ) o.2 * o.2) * (o.1 - 1 * o.2) = 0 := by
        linear_combination h
      rcases mul_eq_zero.mp hfactor with h0 | h0
      · exact hgain.ne' h0
      · exact hne (sub_eq_zero.mp h0)
    · rintro (h | h)
      · exact absurd h hH
      · rw [h, one_mul, sub_self, mul_zero, add_zero, div_self hH]

/-- After its first bar the loop's variance is the generator's initial one only at one value of
the ETH logarithm. -/
theorem first_variance_ne {o : K × K} (ho : o.2 ^ 2 ≠ 1 / 100001000) :
    (1 : K) ≠ (Kalman.update noiseQ noiseR (⟨1, 1⟩ : Kalman.State K) o).P := by
  intro h
  apply ho
  rw [Kalman.update_P noiseR_pos one_add_noiseQ_pos, eq_div_iff
    (Kalman.innovation_pos noiseR_pos one_add_noiseQ_pos).ne'] at h
  unfold noiseQ noiseR at h
  have hsq : o.2 ^ 2 * (1 + 1 / 100000) = 1 / 100000 * (1 / 1000) := by linear_combination h
  linear_combination (100000 / 100001) * hsq

/-- The hedge ratios agree exactly when no bar moves them. -/
theorem kalmanHedge_eq_iff {o : K × K} {obs : List (K × K)} (ho : o.2 ^ 2 ≠ 1 / 100001000) :
    (Kalman.run noiseQ noiseR ⟨1, 1⟩ (o :: obs)).map Kalman.State.beta = kalmanHedge (o :: obs) ↔
      ∀ p ∈ o :: obs, Fits p := by
  rw [Kalman.run, List.map_cons, kalmanHedge, List.cons.injEq, List.forall_mem_cons,
    eq_comm, first_hedge_eq_iff]
  refine and_congr_right fun hfit => ?_
  have hfirst := (first_hedge_eq_iff o).mpr hfit
  have hone : (Kalman.update noiseQ noiseR (⟨1, 1⟩ : Kalman.State K) o).beta = 1 :=
    Kalman.update_beta_eq_self hfit
  rw [hfirst, hone]
  have hiff : (Kalman.run noiseQ noiseR (Kalman.update noiseQ noiseR ⟨1, 1⟩ o) obs).map
      Kalman.State.beta = (Kalman.run noiseQ noiseR ⟨1, 1⟩ obs).map Kalman.State.beta ↔
      ∀ p ∈ obs, p.2 = 0 ∨ p.1 = (Kalman.update noiseQ noiseR ⟨1, 1⟩ o).beta * p.2 :=
    Kalman.run_beta_eq_iff noiseQ_nonneg noiseR_pos
      (Kalman.update_P_pos noiseR_pos one_add_noiseQ_pos) one_pos hone
      (first_variance_ne ho).symm obs
  rw [hiff, hone]
  rfl

end hedges

/-! ### Z-scores -/

section zscores

/-- The sum of squared deviations of a window. -/
noncomputable def deviation (w : List ℝ) : ℝ := (w.map fun x => (x - mean w) ^ 2).sum

theorem deviation_nonneg (w : List ℝ) : 0 ≤ deviation w := by
  unfold deviation
  apply List.sum_nonneg
  intro x hx
  obtain ⟨y, -, rfl⟩ := List.mem_map.mp hx
  exact sq_nonneg _

theorem deviation_eq_zero_iff (w : List ℝ) : deviation w = 0 ↔ ∀ x ∈ w, x = mean w := by
  unfold deviation
  generalize mean w = m
  induction w with
  | nil => simp
  | cons x w ih =>
      have hrest : 0 ≤ (w.map fun x => (x - m) ^ 2).sum := by
        apply List.sum_nonneg
        intro x hx
        obtain ⟨y, -, rfl⟩ := List.mem_map.mp hx
        exact sq_nonneg _
      rw [List.map_cons, List.sum_cons, List.forall_mem_cons,
        add_eq_zero_iff_of_nonneg (sq_nonneg _) hrest, ih, sq_eq_zero_iff, sub_eq_zero]

theorem std_eq (w : List ℝ) : std realNumerics w = √(deviation w / w.length) := by
  unfold std deviation
  rw [mean, List.length_map]
  rfl

theorem sampleStd_eq (w : List ℝ) :
    sampleStd realNumerics w = √(deviation w / (w.length - 1)) := rfl

/-- The last value of the window is its mean, and not all values are. -/
def Centred (w : List ℝ) : Prop := w.getLastD 0 = mean w ∧ ∃ x ∈ w, x ≠ mean w

/-- On a full window the two z-scores agree only where both are zero and defined. -/
theorem zscore_eq_iff {spreads : List ℝ} (hfull : zWindow ≤ spreads.length) :
    labelZscore realNumerics spreads = liveZscore realNumerics (trailing zWindow spreads) ↔
      Centred (trailing zWindow spreads) := by
  have hlen : (trailing zWindow spreads).length = zWindow := by
    rw [trailing_length]
    omega
  unfold labelZscore liveZscore
  rw [if_neg (not_lt.mpr hfull), if_neg (not_lt.mpr hlen.ge)]
  generalize trailing zWindow spreads = w at hlen ⊢
  have hn : (w.length : ℝ) = 60 := by
    rw [hlen]
    rfl
  by_cases hflat : deviation w = 0
  · -- a constant window: no number in training, zero live
    have hstd : std realNumerics w = 0 := by
      rw [std_eq, hflat, zero_div, Real.sqrt_zero]
    have hsample : sampleStd realNumerics w = 0 := by
      rw [sampleStd_eq, hflat, zero_div, Real.sqrt_zero]
    rw [if_pos hsample, hstd, if_neg (by norm_num)]
    constructor
    · intro h
      cases h
    · rintro ⟨-, x, hx, hne⟩
      exact absurd ((deviation_eq_zero_iff w).mp hflat x hx) hne
  · have hpos : 0 < deviation w := lt_of_le_of_ne (deviation_nonneg w) (Ne.symm hflat)
    have hvaries : ∃ x ∈ w, x ≠ mean w := by
      by_contra hall
      push Not at hall
      exact hflat ((deviation_eq_zero_iff w).mpr hall)
    have hsample : 0 < sampleStd realNumerics w := by
      rw [sampleStd_eq, hn]
      apply Real.sqrt_pos.mpr
      exact div_pos hpos (by norm_num)
    have hlt : std realNumerics w < sampleStd realNumerics w := by
      rw [std_eq, sampleStd_eq, hn]
      apply Real.sqrt_lt_sqrt (by positivity)
      apply div_lt_div_of_pos_left hpos (by norm_num) (by norm_num)
    rw [if_neg hsample.ne']
    have hcentred : Centred w ↔ w.getLastD 0 - mean w = 0 := by
      unfold Centred
      rw [sub_eq_zero]
      exact and_iff_left hvaries
    rw [hcentred]
    split_ifs with hlive
    · rw [Option.some.injEq]
      have hstd : 0 < std realNumerics w := lt_trans (by positivity) hlive
      constructor
      · intro h
        by_contra hne
        rw [div_eq_div_iff hsample.ne' hstd.ne'] at h
        exact hlt.ne (mul_left_cancel₀ hne h)
      · intro h
        rw [h, zero_div, zero_div]
    · rw [Option.some.injEq, div_eq_zero_iff]
      exact or_iff_left hsample.ne'

theorem zscore_eq_of_lt {spreads : List ℝ} (hshort : spreads.length < zWindow) :
    labelZscore realNumerics spreads = liveZscore realNumerics (trailing zWindow spreads) := by
  unfold labelZscore liveZscore
  rw [if_pos hshort, if_pos (by rw [trailing_length]; omega)]

end zscores

/-! ### In terms of prices -/

section prices

/-- The BTC mid over the ETH mid. -/
def Mids.ratio (m : Mids) : ℚ := m.btc / m.eth

/-- The last ratio is the geometric mean of the window, and not all ratios are. -/
def CentredRatios (w : List ℚ) : Prop :=
  w.prod = w.getLastD 1 ^ w.length ∧ ∃ r ∈ w, r ≠ w.getLastD 1

/-- The bars on which training and live spreads agree. -/
structure SpreadsSettled (bars : List Mids) : Prop where
  positive : ∀ m ∈ bars, 0 < m.btc ∧ 0 < m.eth
  flat : ∀ m ∈ bars, m.eth = 1 ∨ m.btc = m.eth
  windows : ∀ i < bars.length, zWindow ≤ i + 1 →
    CentredRatios (trailing zWindow ((bars.map Mids.ratio).take (i + 1)))

/-- The mids stay clear of the range in which the generator clips a price the loop takes. -/
def AboveFloor (m : Mids) : Prop :=
  (m.btc ≤ 0 ∨ clipFloor ≤ m.btc) ∧ (m.eth ≤ 0 ∨ clipFloor ≤ m.eth)

noncomputable def logRatio (r : ℚ) : ℝ := Real.log r

theorem logRatio_injective {r r' : ℚ} (hr : 0 < r) (hr' : 0 < r') :
    logRatio r = logRatio r' ↔ r = r' := by
  constructor
  · intro h
    have hr1 : (0 : ℝ) < r := by exact_mod_cast hr
    have hr2 : (0 : ℝ) < r' := by exact_mod_cast hr'
    have h' := Real.log_injOn_pos (Set.mem_Ioi.mpr hr1) (Set.mem_Ioi.mpr hr2) h
    exact_mod_cast h'
  · rintro rfl
    rfl

theorem sum_logRatio {w : List ℚ} (hw : ∀ r ∈ w, 0 < r) :
    (w.map logRatio).sum = logRatio w.prod ∧ 0 < w.prod := by
  induction w with
  | nil => simp [logRatio]
  | cons r w ih =>
      rw [List.forall_mem_cons] at hw
      obtain ⟨hsum, hprod⟩ := ih hw.2
      have hr : (r : ℝ) ≠ 0 := by exact_mod_cast hw.1.ne'
      have hp : (w.prod : ℝ) ≠ 0 := by exact_mod_cast hprod.ne'
      constructor
      · rw [List.map_cons, List.sum_cons, List.prod_cons, hsum]
        unfold logRatio
        rw [Rat.cast_mul, Real.log_mul hr hp]
      · rw [List.prod_cons]
        exact mul_pos hw.1 hprod

theorem getLastD_map_logRatio (w : List ℚ) :
    (w.map logRatio).getLastD 0 = logRatio (w.getLastD 1) := by
  rcases List.eq_nil_or_concat w with rfl | ⟨w, r, rfl⟩
  · simp [logRatio]
  · simp

theorem centred_map_iff {w : List ℚ} (hw : ∀ r ∈ w, 0 < r) (hlen : 0 < w.length) :
    Centred (w.map logRatio) ↔ CentredRatios w := by
  obtain ⟨hsum, hprod⟩ := sum_logRatio hw
  have hn : (w.length : ℝ) ≠ 0 := by positivity
  have hlast : 0 < w.getLastD 1 := by
    rw [List.getLastD_eq_getLast?]
    cases hl : w.getLast? with
    | none => exact one_pos
    | some r => exact hw r (List.mem_of_getLast? hl)
  have hmean : (w.map logRatio).getLastD 0 = mean (w.map logRatio) ↔
      w.prod = w.getLastD 1 ^ w.length := by
    have hpow : logRatio (w.getLastD 1 ^ w.length) = w.length * logRatio (w.getLastD 1) := by
      unfold logRatio
      rw [Rat.cast_pow, Real.log_pow]
    rw [← logRatio_injective hprod (pow_pos hlast _), hpow, getLastD_map_logRatio, mean, hsum,
      List.length_map, eq_div_iff hn, mul_comm, eq_comm]
  unfold Centred CentredRatios
  rw [hmean]
  refine and_congr_right fun hcentre => ?_
  rw [← hmean.mpr hcentre, getLastD_map_logRatio]
  constructor
  · rintro ⟨x, hx, hne⟩
    obtain ⟨r, hr, rfl⟩ := List.mem_map.mp hx
    exact ⟨r, hr, fun h => hne (congrArg logRatio h)⟩
  · rintro ⟨r, hr, hne⟩
    exact ⟨_, List.mem_map_of_mem hr, fun h => hne ((logRatio_injective (hw r hr) hlast).mp h)⟩

theorem logs_fits_iff {m : Mids} (hm : 0 < m.btc ∧ 0 < m.eth) :
    Fits (logs realNumerics m) ↔ m.eth = 1 ∨ m.btc = m.eth := by
  have hone : logRatio 1 = 0 := by
    unfold logRatio
    rw [Rat.cast_one, Real.log_one]
  have heth : (logs realNumerics m).2 = 0 ↔ m.eth = 1 := by
    rw [← logRatio_injective hm.2 one_pos, hone]
    rfl
  have hboth : (logs realNumerics m).1 = 1 * (logs realNumerics m).2 ↔ m.btc = m.eth := by
    rw [one_mul, ← logRatio_injective hm.1 hm.2]
    rfl
  unfold Fits
  rw [heth, hboth]

theorem spreadsOf_one {bars : List Mids} (hpos : ∀ m ∈ bars, 0 < m.btc ∧ 0 < m.eth) :
    spreadsOf (bars.map (logs realNumerics)) (List.replicate bars.length 1)
      = (bars.map Mids.ratio).map logRatio := by
  induction bars with
  | nil => rfl
  | cons m bars ih =>
      rw [List.forall_mem_cons] at hpos
      have hbtc : (m.btc : ℝ) ≠ 0 := by exact_mod_cast hpos.1.1.ne'
      have heth : (m.eth : ℝ) ≠ 0 := by exact_mod_cast hpos.1.2.ne'
      have hhead : (logs realNumerics m).1 - 1 * (logs realNumerics m).2 = logRatio m.ratio := by
        unfold logRatio Mids.ratio
        rw [Rat.cast_div, Real.log_div hbtc heth, one_mul]
        rfl
      have hrest := ih hpos.2
      unfold spreadsOf at hrest ⊢
      rw [List.map_cons, List.length_cons, List.replicate_succ, List.zipWith_cons_cons, hrest,
        hhead]
      rfl

theorem zscore_ratios_iff {ratios : List ℚ} (hpos : ∀ r ∈ ratios, 0 < r) :
    liveZscore realNumerics (trailing zWindow (ratios.map logRatio))
        = labelZscore realNumerics (ratios.map logRatio) ↔
      (zWindow ≤ ratios.length → CentredRatios (trailing zWindow ratios)) := by
  by_cases hfull : zWindow ≤ ratios.length
  · have hwindow : 0 < (trailing zWindow ratios).length := by
      rw [trailing_length, Nat.min_eq_left hfull]
      decide
    have hsub : ∀ r ∈ trailing zWindow ratios, 0 < r := fun r hr =>
      hpos r (List.mem_of_mem_drop hr)
    rw [eq_comm, zscore_eq_iff (by rwa [List.length_map]), trailing_map,
      centred_map_iff hsub hwindow]
    exact (imp_iff_right hfull).symm
  · refine iff_of_true ?_ fun h => absurd h hfull
    exact (zscore_eq_of_lt (by rw [List.length_map]; omega)).symm

/-- The squared logarithm of an ETH mid is not the one value at which the filters meet. -/
theorem logs_sq_ne {m : Mids} (hm : 0 < m.eth) :
    (logs realNumerics m).2 ^ 2 ≠ 1 / 100001000 := by
  have h := LogSquare.log_sq_ne (n := 100001000) (by norm_num) hm
  exact_mod_cast h

theorem clippedLogs_map {bars : List Mids} (hfloor : ∀ m ∈ bars, AboveFloor m)
    (hpos : ∀ m ∈ bars, 0 < m.btc ∧ 0 < m.eth) :
    bars.map (clippedLogs realNumerics) = bars.map (logs realNumerics) := by
  apply List.map_congr_left
  intro m hm
  obtain ⟨hbtc, heth⟩ := hfloor m hm
  have hm' := hpos m hm
  exact clippedLogs_eq (hbtc.resolve_left (not_le.mpr hm'.1))
    (heth.resolve_left (not_le.mpr hm'.2))

theorem spreadsAgree_iff_columns {bars : List Mids} (hfloor : ∀ m ∈ bars, AboveFloor m)
    (hpos : ∀ m ∈ bars, 0 < m.btc ∧ 0 < m.eth) {hedges : List ℝ}
    (hhedges : (Kalman.run noiseQ noiseR ⟨1, 1⟩ (bars.map (logs realNumerics))).map
      Kalman.State.beta = hedges) :
    SpreadsAgree realNumerics bars ↔ hedges = kalmanHedge (bars.map (logs realNumerics)) ∧
      ∀ i < bars.length,
        liveZscore realNumerics (trailing zWindow
          ((spreadsOf (bars.map (logs realNumerics)) hedges).take (i + 1)))
          = labelZscore realNumerics
            ((spreadsOf (bars.map (logs realNumerics)) hedges).take (i + 1)) := by
  have hrows : SpreadLoop.init.rows realNumerics bars = (spreadRows
      (fun spreads => liveZscore realNumerics (trailing zWindow spreads)) []
      (bars.map (logs realNumerics)) hedges).map some := by
    rw [← hhedges]
    exact rows_eq_spreadRows hpos ⟨1, 1⟩ []
  unfold SpreadsAgree labelRows
  simp only
  rw [hrows, clippedLogs_map hfloor hpos, (Option.some_injective _).list_map.eq_iff,
    spreadRows_eq_iff (by rw [← hhedges, List.length_map, Kalman.run_length])
      (kalmanHedge_length _), List.length_map]
  rfl

theorem hedges_agree_iff {bars : List Mids} (hpos : ∀ m ∈ bars, 0 < m.btc ∧ 0 < m.eth) :
    (Kalman.run noiseQ noiseR ⟨1, 1⟩ (bars.map (logs realNumerics))).map Kalman.State.beta
        = kalmanHedge (bars.map (logs realNumerics)) ↔
      ∀ m ∈ bars, m.eth = 1 ∨ m.btc = m.eth := by
  cases bars with
  | nil => simp [Kalman.run, kalmanHedge]
  | cons m bars =>
      have hm := hpos m List.mem_cons_self
      rw [List.map_cons, kalmanHedge_eq_iff (logs_sq_ne hm.2), ← List.map_cons,
        List.forall_mem_map]
      constructor
      · intro h p hp
        exact (logs_fits_iff (hpos p hp)).mp (h p hp)
      · intro h p hp
        exact (logs_fits_iff (hpos p hp)).mpr (h p hp)

/-- Agreement needs bars that do not move the hedge ratio. -/
theorem flat_of_spreadsAgree {bars : List Mids} (hfloor : ∀ m ∈ bars, AboveFloor m)
    (h : SpreadsAgree realNumerics bars) : ∀ m ∈ bars, m.eth = 1 ∨ m.btc = m.eth := by
  have hpos := pos_of_spreadsAgree h
  rw [spreadsAgree_iff_columns hfloor hpos rfl] at h
  exact (hedges_agree_iff hpos).mp h.1

/-- On bars that do not move the hedge ratio, agreement is a matter of the full windows. -/
theorem spreadsAgree_iff_windows {bars : List Mids} (hfloor : ∀ m ∈ bars, AboveFloor m)
    (hpos : ∀ m ∈ bars, 0 < m.btc ∧ 0 < m.eth) (hflat : ∀ m ∈ bars, m.eth = 1 ∨ m.btc = m.eth) :
    SpreadsAgree realNumerics bars ↔ ∀ i < bars.length, zWindow ≤ i + 1 →
      CentredRatios (trailing zWindow ((bars.map Mids.ratio).take (i + 1))) := by
  have hfits : ∀ o ∈ bars.map (logs realNumerics), o.2 = 0 ∨ o.1 = 1 * o.2 := by
    rw [List.forall_mem_map]
    exact fun m hm => (logs_fits_iff (hpos m hm)).mpr (hflat m hm)
  have hone := Kalman.run_beta_const (Q := noiseQ) (R := noiseR)
    (s := (⟨1, 1⟩ : Kalman.State ℝ)) hfits
  rw [List.length_map] at hone
  rw [spreadsAgree_iff_columns hfloor hpos hone, ← hone, hedges_agree_iff hpos, and_iff_right hflat,
    hone, spreadsOf_one hpos]
  apply forall₂_congr
  intro i hi
  have hratios : ∀ r ∈ (bars.map Mids.ratio).take (i + 1), 0 < r := by
    intro r hr
    obtain ⟨m, hm, rfl⟩ := List.mem_map.mp (List.mem_of_mem_take hr)
    exact div_pos (hpos m hm).1 (hpos m hm).2
  rw [← List.map_take, zscore_ratios_iff hratios, List.length_take, List.length_map,
    Nat.min_eq_left (by omega)]

/-- Live and training spreads agree exactly on positive prices that never move the hedge ratio
off one and whose last ratio is the centre of every full window. -/
theorem spreadsAgree_iff {bars : List Mids} (hfloor : ∀ m ∈ bars, AboveFloor m) :
    SpreadsAgree realNumerics bars ↔ SpreadsSettled bars := by
  constructor
  · intro h
    have hpos := pos_of_spreadsAgree h
    have hflat := flat_of_spreadsAgree hfloor h
    exact ⟨hpos, hflat, (spreadsAgree_iff_windows hfloor hpos hflat).mp h⟩
  · rintro ⟨hpos, hflat, hwindows⟩
    exact (spreadsAgree_iff_windows hfloor hpos hflat).mpr hwindows

/-- The first bar of a session. -/
def openingBar : Mids := ⟨mkRat 60000 1, mkRat 3000 1⟩

theorem openingBar_aboveFloor : ∀ m ∈ [openingBar], AboveFloor m := by
  intro m hm
  rw [List.mem_singleton] at hm
  rw [hm]
  exact ⟨Or.inr (by decide +kernel), Or.inr (by decide +kernel)⟩

theorem spreadsAgree_iff_opening :
    SpreadsAgree realNumerics [openingBar] ↔ SpreadsSettled [openingBar] :=
  spreadsAgree_iff openingBar_aboveFloor

/-- Already on the first bar the hedge ratios differ. -/
theorem opening_hedges_differ : ¬ SpreadsAgree realNumerics [openingBar] := by
  intro h
  have hflat := flat_of_spreadsAgree openingBar_aboveFloor h openingBar (List.mem_singleton_self _)
  rcases hflat with h1 | h2
  · revert h1
    decide +kernel
  · revert h2
    decide +kernel

end prices

end Ml
end MagnumOpus
