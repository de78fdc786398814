import MagnumOpus.Bot.Backtest
import MagnumOpus.Bot.PaperTrading

/-! # Paper trading against the backtest

The same requests at the same prices, booked by the paper client with its order worker and by the
broker of a backtest.

* **The units.** The size of a request is a fraction of the portfolio.  The backtest turns it into
  units of the asset, while the paper client fills the fraction itself: in other units of price, the
  profit of the backtest is the same and that of the paper run is not (`backtest_scale`,
  `paper_scale`).
* **The condition.** Both profits are therefore equal at all prices only when both are always `0`,
  which is when no request closes anything of an earlier one (`pnl_eq_iff`). -/

namespace MagnumOpus.Bot

open NetPosition

/-! ### The backtest -/

/-- The broker executes at once what a request becomes. -/
def backtestStep (s : Setup) (B : Backtest.Broker) (st : B.State) (e : OrderRequest × ℚ) :
    B.State :=
  match Backtest.post s.capital (B.account st) (s.request e.1 e.2) e.2 with
  | none => st
  | some q => B.execute st q e.2

/-- The realised profit of the broker. -/
def backtestPnl (s : Setup) (B : Backtest.Broker) (es : List (OrderRequest × ℚ)) : ℚ :=
  (B.account (es.foldl (backtestStep s B) B.start)).realised

def backtestRule (s : Setup) (a : NetPosition ℚ) (r : OrderRequest) (p : ℚ) : Option ℚ :=
  Backtest.post s.capital a (s.request r p) p

/-! ### What closes what -/

/-- Both are admitted, and the second sells what the first bought. -/
def PaperCloses (s : Setup) (r r' : OrderRequest) : Prop :=
  (s.admitted r = true ∧ r.side = .buy ∧ 0 < r.size) ∧
    s.admitted r' = true ∧ r'.side = .sell ∧ 0 < r'.size

/-- The first opens a position, and the second is an order of the other side. -/
def BacktestCloses (r r' : OrderRequest) : Prop :=
  (r.orderRole ≠ .exit ∧ 0 < r.size) ∧ r'.side ≠ r.side ∧ (r'.orderRole = .exit ∨ 0 < r'.size)

/-- The second request closes something of the first, in the paper run or in the backtest. -/
def Closes (s : Setup) (r r' : OrderRequest) : Prop := PaperCloses s r r' ∨ BacktestCloses r r'

variable {s : Setup} {a : NetPosition ℚ} {r : OrderRequest} {p : ℚ}

theorem backtestPnl_eq (s : Setup) (B : Backtest.Broker) (es : List (OrderRequest × ℚ)) :
    backtestPnl s B es = (follow (backtestRule s) {} es).realised := by
  have hrun : ∀ es st, B.account (es.foldl (backtestStep s B) st) =
      follow (backtestRule s) (B.account st) es := by
    intro es
    induction es with
    | nil => exact fun _ => rfl
    | cons e es ih =>
        intro st
        rw [List.foldl_cons, ih, follow, backtestStep, backtestRule]
        cases Backtest.post s.capital (B.account st) (s.request e.1 e.2) e.2 with
        | none => rfl
        | some q => rw [B.account_execute, Option.elim_some]
  rw [backtestPnl, hrun, B.account_start]

/-! ### Orders of a backtest -/

/-- The quantity with the sign of its side. -/
def signed : OrderSide → ℚ → ℚ
  | .buy, x => x
  | .sell, x => -x

theorem backtestRule_open (hp : 0 < p) (hrole : r.orderRole ≠ .exit) :
    backtestRule s a r p =
      let units := Backtest.getvalue s.capital a p * r.size / p
      if 0 < units then some (signed r.side units) else none := by
  cases hside : r.side <;>
    simp [backtestRule, Backtest.post, Setup.request, hp.not_ge, hside, hrole, signed]

theorem backtestRule_exit (hp : 0 < p) (hrole : r.orderRole = .exit) :
    backtestRule s a r p = if signed r.side a.size < 0 then some (-a.size) else none := by
  cases hside : r.side with
  | buy =>
      have hsigned : signed .buy a.size < 0 ↔ a.size < 0 := Iff.rfl
      simp only [backtestRule, Backtest.post, Setup.request, if_neg hp.not_ge, hside, hrole,
        hsigned, true_and, ne_eq, not_true_eq_false, false_and, if_false]
      by_cases hneg : a.size < 0
      · rw [if_pos hneg, if_pos hneg, abs_of_neg hneg]
      · rw [if_neg hneg, if_neg hneg]
  | sell =>
      simp [backtestRule, Backtest.post, Setup.request, hp.not_ge, hside, hrole, signed]

theorem mul_signed (x y : ℚ) (side : OrderSide) : x * signed side y = signed side x * y := by
  cases side with
  | buy => rfl
  | sell => rw [signed, signed, mul_neg, neg_mul]

theorem signed_add_signed (side : OrderSide) (x y : ℚ) :
    signed side (x + signed side y) = signed side x + y := by
  cases side with
  | buy => rfl
  | sell => rw [signed, signed, signed, neg_add, neg_neg]

theorem signed_mul (side : OrderSide) (u x : ℚ) : signed side (u * x) = u * signed side x := by
  cases side with
  | buy => rfl
  | sell => rw [signed, signed, mul_neg]

theorem signed_of_ne {side side' : OrderSide} (h : side' ≠ side) (x : ℚ) :
    signed side' x = -signed side x := by
  cases side <;> cases side'
  · exact absurd rfl h
  · rfl
  · exact (neg_neg x).symm
  · exact absurd rfl h

/-! ### Without closing -/

/-- Nothing is realised, and what is held was opened on its side. -/
def Quiet (opens : OrderRequest → Prop) (seen : List OrderRequest) (a : NetPosition ℚ) : Prop :=
  a.realised = 0 ∧ ∀ side, 0 < signed side a.size → ∃ r ∈ seen, opens r ∧ r.side = side

variable {opens : OrderRequest → Prop} {seen : List OrderRequest}

theorem quiet_nil : Quiet opens [] {} := by
  refine ⟨rfl, fun side h => ?_⟩
  cases side <;> exact absurd h (by simp [signed])

theorem Quiet.cons (h : Quiet opens seen a) (r : OrderRequest) : Quiet opens (r :: seen) a := by
  refine ⟨h.1, fun side hside => ?_⟩
  obtain ⟨r', hr', hopens⟩ := h.2 side hside
  exact ⟨r', List.mem_cons_of_mem r hr', hopens⟩

/-- A trade that adds to the position on the side of a request that opens. -/
theorem Quiet.trade (h : Quiet opens seen a) {q : ℚ} (hq : 0 < q) (hopens : opens r)
    (hheld : 0 ≤ signed r.side a.size) (p : ℚ) :
    Quiet opens (r :: seen) (a.trade (signed r.side q) p) := by
  have hadd : 0 ≤ a.size * signed r.side q := by
    rw [mul_signed]
    exact mul_nonneg hheld hq.le
  refine ⟨?_, fun side hside => ?_⟩
  · simp only [NetPosition.trade, if_pos hadd]
    exact h.1
  · rw [size_trade] at hside
    by_cases hsame : side = r.side
    · exact ⟨r, List.mem_cons_self, hopens, hsame.symm⟩
    · rw [signed_of_ne hsame, signed_add_signed] at hside
      linarith

theorem Quiet.trade_zero (h : Quiet opens seen a) (p : ℚ) : Quiet opens seen (a.trade 0 p) := by
  refine ⟨?_, fun side hside => h.2 side ?_⟩
  · simp only [NetPosition.trade, mul_zero, le_refl, if_true]
    exact h.1
  · rwa [size_trade, add_zero] at hside

/-- What opens a position in the backtest. -/
def BacktestOpens (r : OrderRequest) : Prop := r.orderRole ≠ .exit ∧ 0 < r.size

theorem size_pos_of_units {v : ℚ} {f : ℚ≥0} (h : 0 < v * f / p) : 0 < f := by
  refine pos_iff_ne_zero.mpr fun hzero => ?_
  rw [hzero, NNRat.cast_zero, mul_zero, zero_div] at h
  exact lt_irrefl 0 h

theorem Quiet.signed_nonneg (h : Quiet BacktestOpens seen a)
    (hseen : ∀ r' ∈ seen, ¬ BacktestCloses r' r) (hcloses : r.orderRole = .exit ∨ 0 < r.size) :
    0 ≤ signed r.side a.size := by
  by_contra hneg
  obtain ⟨side, hside⟩ : ∃ side, side ≠ r.side := by
    cases r.side
    · exact ⟨.sell, by decide⟩
    · exact ⟨.buy, by decide⟩
  have hheld : 0 < signed side a.size := by
    rw [signed_of_ne hside]
    exact neg_pos.mpr (not_le.mp hneg)
  obtain ⟨r', hr', hopens, rfl⟩ := h.2 side hheld
  exact hseen r' hr' ⟨hopens, hside.symm, hcloses⟩

theorem quiet_backtest (seen : List OrderRequest) (a : NetPosition ℚ) (r : OrderRequest) (p : ℚ)
    (hp : 0 < p) (h : Quiet BacktestOpens seen a) (hseen : ∀ r' ∈ seen, ¬ BacktestCloses r' r) :
    Quiet BacktestOpens (r :: seen) ((backtestRule s a r p).elim a fun q => a.trade q p) := by
  by_cases hrole : r.orderRole = .exit
  · have hheld := h.signed_nonneg hseen (.inl hrole)
    rw [backtestRule_exit hp hrole, if_neg hheld.not_gt]
    exact h.cons r
  · rw [backtestRule_open hp hrole]
    dsimp only
    split
    · next hunits =>
        have hsize := size_pos_of_units hunits
        exact h.trade hunits ⟨hrole, hsize⟩ (h.signed_nonneg hseen (.inr hsize)) p
    · exact h.cons r

/-- What opens a position in the paper run. -/
def PaperOpens (s : Setup) (r : OrderRequest) : Prop :=
  s.admitted r = true ∧ r.side = .buy ∧ 0 < r.size

theorem Quiet.size_nonneg (h : Quiet (PaperOpens s) seen a) : 0 ≤ a.size := by
  by_contra hneg
  obtain ⟨r, -, hopens, hside⟩ := h.2 .sell (neg_pos.mpr (not_le.mp hneg))
  exact absurd (hside.symm.trans hopens.2.1) (by decide)

theorem quiet_paper (seen : List OrderRequest) (a : NetPosition ℚ) (r : OrderRequest) (p : ℚ)
    (h : Quiet (PaperOpens s) seen a) (hseen : ∀ r' ∈ seen, ¬ PaperCloses s r' r) :
    Quiet (PaperOpens s) (r :: seen) ((paperRule s a r p).elim a fun q => a.trade q p) := by
  by_cases hadm : s.admitted r = true
  · rw [paperRule, if_pos hadm, Option.elim_some]
    rcases (zero_le : 0 ≤ r.size).eq_or_lt with hzero | hsize
    · have hquantity : paperQuantity a r.side r.size = 0 := by
        rw [← hzero]
        cases r.side with
        | buy => rfl
        | sell => rw [paperQuantity, NNRat.cast_zero, min_eq_left h.size_nonneg, neg_zero]
      rw [hquantity]
      exact (h.trade_zero p).cons r
    · cases hside : r.side with
      | buy =>
          have htrade := h.trade (r := r) (NNRat.cast_pos.mpr hsize) ⟨hadm, hside, hsize⟩ ?_ p
          · rwa [hside] at htrade
          · rw [hside]
            exact h.size_nonneg
      | sell =>
          have hflat : a.size = 0 := by
            by_contra hne
            obtain ⟨r', hr', hopens, -⟩ := h.2 .buy (lt_of_le_of_ne h.size_nonneg (Ne.symm hne))
            exact hseen r' hr' ⟨hopens, hadm, hside, hsize⟩
          rw [paperQuantity, hflat, min_eq_right (NNRat.cast_nonneg _), neg_zero]
          exact (h.trade_zero p).cons r
  · rw [paperRule, if_neg hadm]
    exact h.cons r

theorem quiet_paper_run {es : List (OrderRequest × ℚ)}
    (h : (es.map Prod.fst).Pairwise fun r r' => ¬ PaperCloses s r r') :
    Quiet (PaperOpens s) ((es.map Prod.fst).reverse ++ []) (follow (paperRule s) {} es) := by
  have hstep : ∀ seen a r (p : ℚ), True → Quiet (PaperOpens s) seen a →
      (∀ r' ∈ seen, ¬ PaperCloses s r' r) →
      Quiet (PaperOpens s) (r :: seen) ((paperRule s a r p).elim a fun q => a.trade q p) :=
    fun seen a r p _ => quiet_paper seen a r p
  exact follow_pairwise hstep es (fun _ _ => trivial) quiet_nil
    (fun _ hr => absurd hr List.not_mem_nil) h

theorem quiet_backtest_run {es : List (OrderRequest × ℚ)} (hpos : ∀ e ∈ es, 0 < e.2)
    (h : (es.map Prod.fst).Pairwise fun r r' => ¬ BacktestCloses r r') :
    Quiet BacktestOpens ((es.map Prod.fst).reverse ++ []) (follow (backtestRule s) {} es) :=
  follow_pairwise quiet_backtest es hpos quiet_nil (fun _ hr => absurd hr List.not_mem_nil) h

/-! ### Units -/

theorem paper_scale (s : Setup) (es : List (OrderRequest × ℚ)) (v : ℚ) :
    (follow (paperRule s) {} (es.map fun e => (e.1, v * e.2))).realised =
      v * (follow (paperRule s) {} es).realised := by
  have hempty : ({} : NetPosition ℚ).scale 1 v = {} := by simp [scale]
  have hrule : ∀ a, ∀ e ∈ es,
      paperRule s (a.scale 1 v) e.1 (v * e.2) = (paperRule s a e.1 e.2).map (1 * ·) := by
    intro a e _
    by_cases hadm : s.admitted e.1 = true
    · cases hside : e.1.side <;> simp [paperRule, hadm, paperQuantity, scale, hside]
    · simp [paperRule, hadm]
  rw [← hempty, follow_scale one_pos _ _ hrule, hempty, realised_scale, one_mul]

theorem backtest_scale (s : Setup) (es : List (OrderRequest × ℚ)) {v : ℚ} (hv : 0 < v) :
    (follow (backtestRule s) {} (es.map fun e => (e.1, v * e.2))).realised =
      (follow (backtestRule s) {} es).realised := by
  have hempty : ({} : NetPosition ℚ).scale v⁻¹ v = {} := by simp [scale]
  have hone : v⁻¹ * v = 1 := inv_mul_cancel₀ hv.ne'
  have hrule : ∀ a, ∀ e ∈ es,
      backtestRule s (a.scale v⁻¹ v) e.1 (v * e.2) = (backtestRule s a e.1 e.2).map (v⁻¹ * ·) := by
    intro a e _
    have hu : 0 < v⁻¹ := inv_pos.mpr hv
    by_cases hp : 0 < e.2
    · have hp' : 0 < v * e.2 := mul_pos hv hp
      by_cases hrole : e.1.orderRole = .exit
      · have hsigned : signed e.1.side (a.scale v⁻¹ v).size < 0 ↔ signed e.1.side a.size < 0 := by
          rw [scale, signed_mul, ← not_le, ← not_le, mul_nonneg_iff_of_pos_left hu]
        rw [backtestRule_exit hp hrole, backtestRule_exit hp' hrole]
        by_cases hneg : signed e.1.side a.size < 0
        · rw [if_pos hneg, if_pos (hsigned.mpr hneg), scale, Option.map_some, mul_neg]
        · rw [if_neg hneg, if_neg fun h => hneg (hsigned.mp h), Option.map_none]
      · have hvalue : Backtest.getvalue s.capital (a.scale v⁻¹ v) (v * e.2) =
            Backtest.getvalue s.capital a e.2 := by
          rw [Backtest.getvalue, Backtest.getvalue, realised_scale, hone, one_mul, openProfit,
            openProfit, scale, ← mul_sub, mul_mul_mul_comm, hone, one_mul]
        have hunits : ∀ x : ℚ, x / (v * e.2) = v⁻¹ * (x / e.2) := by
          intro x
          field_simp
        rw [backtestRule_open hp hrole, backtestRule_open hp' hrole]
        simp only [hvalue, hunits, mul_pos_iff_of_pos_left hu, signed_mul]
        split <;> rfl
    · have hp' : v * e.2 ≤ 0 := mul_nonpos_of_nonneg_of_nonpos hv.le (not_lt.mp hp)
      simp only [backtestRule, Backtest.post, if_pos hp', if_pos (not_lt.mp hp), Option.map_none]
  rw [← hempty, follow_scale (inv_pos.mpr hv) _ _ hrule, hempty, realised_scale, hone, one_mul]

/-! ### With closing -/

/-- A list in which some element stands in a relation to a later one has a first such later one. -/
theorem exists_first {α : Type*} {R : α → α → Prop} {l : List α}
    (h : ¬ l.Pairwise fun r r' => ¬ R r r') :
    ∃ pre x post, l = pre ++ x :: post ∧ pre.Pairwise (fun r r' => ¬ R r r') ∧
      ∃ r ∈ pre, R r x := by
  induction l using List.reverseRecOn with
  | nil => exact absurd List.Pairwise.nil h
  | append_singleton l y ih =>
      by_cases hl : l.Pairwise fun r r' => ¬ R r r'
      · refine ⟨l, y, [], rfl, hl, ?_⟩
        by_contra hnone
        push Not at hnone
        refine h (List.pairwise_append.mpr ⟨hl, List.pairwise_singleton _ _, fun r hr x hx => ?_⟩)
        rw [List.mem_singleton.mp hx]
        exact hnone r hr
      · obtain ⟨pre, x, post, rfl, hpre⟩ := ih hl
        exact ⟨pre, x, post ++ [y], by rw [List.append_assoc, List.cons_append], hpre⟩

/-- The requests, all at one price. -/
def atPrice (p : ℚ) (rs : List OrderRequest) : List (OrderRequest × ℚ) := rs.map fun r => (r, p)

theorem map_fst_atPrice (p : ℚ) (rs : List OrderRequest) : (atPrice p rs).map Prod.fst = rs := by
  rw [atPrice, List.map_map]
  exact List.map_id rs

theorem pos_of_mem_atPrice {p : ℚ} (hp : 0 < p) {rs : List OrderRequest} :
    ∀ e ∈ atPrice p rs, 0 < e.2 := by
  intro e he
  obtain ⟨r, -, rfl⟩ := List.mem_map.mp he
  exact hp

/-- A position in the backtest stays on its side while nothing closes it. -/
theorem signed_backtest_pos {rs : List OrderRequest} (hopens : BacktestOpens r)
    (hrs : ∀ r' ∈ rs, ¬ BacktestCloses r r') (hheld : 0 < signed r.side a.size) :
    0 < signed r.side (follow (backtestRule s) a (atPrice 1 rs)).size := by
  induction rs generalizing a with
  | nil => exact hheld
  | cons x rs ih =>
      rw [atPrice, List.map_cons, follow]
      refine ih (fun r' hr' => hrs r' (List.mem_cons_of_mem x hr')) ?_
      have hx := hrs x List.mem_cons_self
      by_cases hside : x.side = r.side
      · by_cases hrole : x.orderRole = .exit
        · rw [backtestRule_exit one_pos hrole, hside, if_neg hheld.not_gt]
          exact hheld
        · rw [backtestRule_open one_pos hrole]
          dsimp only
          split
          · next hunits =>
              rw [Option.elim_some, size_trade, hside, signed_add_signed]
              exact add_pos hheld hunits
          · exact hheld
      · have hrole : x.orderRole ≠ .exit := fun hrole => hx ⟨hopens, hside, .inl hrole⟩
        have hunits : ∀ v : ℚ, ¬ 0 < v * x.size / 1 := fun v hpos =>
          hx ⟨hopens, hside, .inr (size_pos_of_units hpos)⟩
        rw [backtestRule_open one_pos hrole]
        simp only [if_neg (hunits _)]
        exact hheld

/-- At one price, a request that opens leaves a position on its side while nothing closes it. -/
theorem backtest_held {pre : List OrderRequest}
    (hpre : pre.Pairwise fun r r' => ¬ BacktestCloses r r') (hr : r ∈ pre)
    (hopens : BacktestOpens r) :
    0 < signed r.side (follow (backtestRule s) {} (atPrice 1 pre)).size := by
  obtain ⟨l, l', rfl⟩ := List.append_of_mem hr
  obtain ⟨hl, hrest, hacross⟩ := List.pairwise_append.mp hpre
  have hquiet := quiet_backtest_run (s := s) (pos_of_mem_atPrice one_pos)
    ((map_fst_atPrice 1 l).symm ▸ hl)
  obtain ⟨hzero, hopen⟩ := follow_flat (backtestRule s) 1 l
  rw [atPrice, List.map_append, List.map_cons, follow_append, follow]
  rw [atPrice] at hquiet
  generalize follow (backtestRule s) {} (l.map fun r => (r, (1 : ℚ))) = b at *
  have hvalue : Backtest.getvalue s.capital b 1 = s.capital := by
    rw [Backtest.getvalue, hzero, hopen, sub_self, mul_zero, add_zero, add_zero]
  have hunits : 0 < s.capital * r.size / 1 :=
    div_pos (mul_pos s.capital_pos (NNRat.cast_pos.mpr hopens.2)) one_pos
  have hside : 0 ≤ signed r.side b.size := by
    refine hquiet.signed_nonneg (fun r' hr' => ?_) (.inr hopens.2)
    have hmem : r' ∈ l := by
      rw [List.append_nil, List.mem_reverse, List.map_map] at hr'
      simpa using hr'
    exact hacross r' hmem r List.mem_cons_self
  refine signed_backtest_pos hopens (List.pairwise_cons.mp hrest).1 ?_
  rw [backtestRule_open one_pos hopens.1]
  simp only [hvalue, if_pos hunits, Option.elim_some]
  rw [size_trade, signed_add_signed]
  exact add_pos_of_nonneg_of_pos hside hunits

/-- When a request closes something in the backtest, the backtest realises a profit at some
prices. -/
theorem backtest_gain {pre : List OrderRequest} {x : OrderRequest}
    (hpre : pre.Pairwise fun r r' => ¬ BacktestCloses r r') (hr : r ∈ pre)
    (hcloses : BacktestCloses r x) (post : List OrderRequest) :
    ∃ q, 0 < q ∧
      0 < (follow (backtestRule s) {} (atPrice 1 pre ++ atPrice q (x :: post))).realised := by
  obtain ⟨hopens, hside, hx⟩ := hcloses
  have hheld := backtest_held (s := s) hpre hr hopens
  obtain ⟨hzero, hopen⟩ := follow_flat (backtestRule s) 1 pre
  obtain ⟨q, hq, hgain⟩ : ∃ q, 0 < q ∧
      0 < (follow (backtestRule s) {} (atPrice 1 pre)).size * (q - 1) := by
    cases hr : r.side with
    | buy =>
        rw [hr] at hheld
        exact ⟨2, two_pos, mul_pos hheld (by norm_num)⟩
    | sell =>
        rw [hr] at hheld
        exact ⟨1 / 2, by norm_num, mul_pos_of_neg_of_neg (neg_pos.mp hheld) (by norm_num)⟩
  have hagainst : signed x.side (follow (backtestRule s) {} (atPrice 1 pre)).size < 0 := by
    rw [signed_of_ne hside]
    exact neg_neg_of_pos hheld
  refine ⟨q, hq, ?_⟩
  rw [atPrice] at hgain hagainst
  by_cases hrole : x.orderRole = .exit
  · refine follow_gain ((backtestRule_exit hq hrole).trans (if_pos hagainst)) ?_ hgain
    rw [mul_neg]
    exact neg_neg_of_pos (mul_self_pos.mpr (left_ne_zero_of_mul hgain.ne'))
  · have hsize : 0 < x.size := hx.resolve_left hrole
    have hvalue : 0 < Backtest.getvalue s.capital
        (follow (backtestRule s) {} (pre.map fun r => (r, (1 : ℚ)))) q := by
      rw [Backtest.getvalue, hzero, hopen, add_zero]
      exact add_pos s.capital_pos hgain
    have hunits := div_pos (mul_pos hvalue (NNRat.cast_pos.mpr hsize)) hq
    refine follow_gain ((backtestRule_open hq hrole).trans (if_pos hunits)) ?_ hgain
    rw [mul_signed]
    exact mul_neg_of_neg_of_pos hagainst hunits

theorem size_paper_pos {rs : List OrderRequest} (hopens : PaperOpens s r)
    (hrs : ∀ r' ∈ rs, ¬ PaperCloses s r r') (hheld : 0 < a.size) (p : ℚ) :
    0 < (follow (paperRule s) a (atPrice p rs)).size := by
  induction rs generalizing a with
  | nil => exact hheld
  | cons x rs ih =>
      rw [atPrice, List.map_cons, follow]
      refine ih (fun r' hr' => hrs r' (List.mem_cons_of_mem x hr')) ?_
      by_cases hadm : s.admitted x = true
      · rw [paperRule, if_pos hadm, Option.elim_some, size_trade]
        cases hside : x.side with
        | buy => exact add_pos_of_pos_of_nonneg hheld (NNRat.cast_nonneg _)
        | sell =>
            have hzero : x.size = 0 := by
              by_contra hne
              exact hrs x List.mem_cons_self ⟨hopens, hadm, hside, pos_iff_ne_zero.mpr hne⟩
            rw [hzero, paperQuantity, NNRat.cast_zero, min_eq_left hheld.le, neg_zero, add_zero]
            exact hheld
      · rw [paperRule, if_neg hadm]
        exact hheld

/-- When a request closes something in the paper run, the run realises a profit at some prices. -/
theorem paper_gain {pre : List OrderRequest} {x : OrderRequest}
    (hpre : pre.Pairwise fun r r' => ¬ PaperCloses s r r') (hr : r ∈ pre)
    (hcloses : PaperCloses s r x) (post : List OrderRequest) :
    0 < (follow (paperRule s) {} (atPrice 1 pre ++ atPrice 2 (x :: post))).realised := by
  obtain ⟨hopens, hadm, hside, hsize⟩ := hcloses
  have hheld : 0 < (follow (paperRule s) {} (atPrice 1 pre)).size := by
    obtain ⟨l, l', rfl⟩ := List.append_of_mem hr
    obtain ⟨hl, hrest, -⟩ := List.pairwise_append.mp hpre
    have hquiet := quiet_paper_run (s := s) ((map_fst_atPrice 1 l).symm ▸ hl)
    rw [atPrice, List.map_append, List.map_cons, follow_append, follow]
    refine size_paper_pos hopens (List.pairwise_cons.mp hrest).1 ?_ 1
    rw [paperRule, if_pos hopens.1, Option.elim_some, size_trade, hopens.2.1]
    exact add_pos_of_nonneg_of_pos hquiet.size_nonneg (NNRat.cast_pos.mpr hopens.2.2)
  have hmin : 0 < min (x.size : ℚ) (follow (paperRule s) {} (atPrice 1 pre)).size :=
    lt_min (NNRat.cast_pos.mpr hsize) hheld
  have hrule : paperRule s (follow (paperRule s) {} (atPrice 1 pre)) x 2 =
      some (-min (x.size : ℚ) (follow (paperRule s) {} (atPrice 1 pre)).size) := by
    rw [paperRule, if_pos hadm, hside]
    rfl
  refine follow_gain hrule ?_ ?_
  · exact mul_neg_of_pos_of_neg hheld (neg_neg_of_pos hmin)
  · exact mul_pos hheld (by norm_num)

/-- **A paper run and a backtest realise the same**, whatever the prices, exactly when no request
closes anything. -/
theorem pnl_eq_iff (s : Setup) (B : Backtest.Broker) (rs : List OrderRequest) :
    (∀ es : List (OrderRequest × ℚ), es.map Prod.fst = rs → (∀ e ∈ es, 0 < e.2) →
      paperPnl s es = backtestPnl s B es) ↔
    rs.Pairwise fun r r' => ¬ Closes s r r' := by
  simp only [paperPnl_eq, backtestPnl_eq]
  constructor
  · intro h
    -- In units of half the price, the paper run would realise twice as much.
    have hzero : ∀ es : List (OrderRequest × ℚ), es.map Prod.fst = rs → (∀ e ∈ es, 0 < e.2) →
        (follow (paperRule s) {} es).realised = 0 ∧
          (follow (backtestRule s) {} es).realised = 0 := by
      intro es hes hpos
      have hscaled := h (es.map fun e => (e.1, 2 * e.2))
        (by rw [List.map_map, ← hes]; rfl)
        (fun e he => by
          obtain ⟨e', he', rfl⟩ := List.mem_map.mp he
          exact mul_pos two_pos (hpos e' he'))
      rw [paper_scale, backtest_scale s es two_pos] at hscaled
      have hsame := h es hes hpos
      exact ⟨by linarith, by linarith⟩
    by_contra hclosed
    obtain ⟨pre, x, post, rfl, hpre, r, hr, hcloses⟩ := exists_first hclosed
    have hprices : ∀ {q : ℚ}, 0 < q →
        (follow (paperRule s) {} (atPrice 1 pre ++ atPrice q (x :: post))).realised = 0 ∧
          (follow (backtestRule s) {} (atPrice 1 pre ++ atPrice q (x :: post))).realised = 0 := by
      intro q hq
      refine hzero _ ?_ ?_
      · rw [List.map_append, map_fst_atPrice, map_fst_atPrice]
      · exact List.forall_mem_append.mpr ⟨pos_of_mem_atPrice one_pos, pos_of_mem_atPrice hq⟩
    rcases hcloses with hcloses | hcloses
    · have hgain := paper_gain (hpre.imp fun h hc => h (.inl hc)) hr hcloses post
      exact hgain.ne' (hprices two_pos).1
    · obtain ⟨q, hq, hgain⟩ :=
        backtest_gain (s := s) (hpre.imp fun h hc => h (.inr hc)) hr hcloses post
      exact hgain.ne' (hprices hq).2
  · intro h es hes hpos
    rw [← hes] at h
    rw [(quiet_paper_run (h.imp fun h hc => h (.inl hc))).1,
      (quiet_backtest_run hpos (h.imp fun h hc => h (.inr hc))).1]

/-- A portfolio of one dollar. -/
def oneDollar : Setup where
  strategyName := "momentum"
  exchange := "bybit"
  symbol := "BTC-USDT"
  maxPositionPct := 1
  portfolioValueUsd := 1
  maxOrderNotionalUsd := 0
  capital := 1
  orderId := fun n => String.ofList (List.replicate n '0')
  now := fun _ => 0
  capital_pos := one_pos
  fresh := fun m n h => by
    have hlength := congrArg (fun t : String => t.toList.length) h
    simpa using hlength

def enterAll : OrderRequest where
  strategy := "momentum"
  exchange := "bybit"
  symbol := "BTC-USDT"
  side := .buy
  orderType := "market"
  orderRole := .entry
  size := 1

def exitAll : OrderRequest := { enterAll with side := .sell, orderRole := .exit }

/-- The whole portfolio buys half a unit at `2`, which is sold at `3`; the paper client trades one
unit. -/
theorem paper_trades_fraction :
    let es := [(enterAll, mkRat 2 1), (exitAll, mkRat 3 1)]
    paperPnl oneDollar es = 1 ∧ backtestPnl oneDollar Backtest.netBroker es = mkRat 1 2 := by
  intro es
  rw [paperPnl_eq, backtestPnl_eq]
  decide +kernel

end MagnumOpus.Bot
