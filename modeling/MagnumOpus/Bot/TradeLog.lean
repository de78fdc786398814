import MagnumOpus.Bot.Backtest

/-! # The trade log of a backtest

The trades that `_apply_fill` puts together from the fills, against the account of the broker.

* **The hope.** `Conservative`: the net profits of the trades add up to the broker's net profit, and
  their sizes to the quantity that was closed.
* **Why it fails.** One entry is pending at a time: a second buy overwrites the first, a sell clears
  it even when it closes a part only, and a sell without a pending entry is not recorded.
* **When it holds.** Exactly for fills that come in round trips, each a buy and a sell of the same
  size (`conservative_iff`). -/

namespace MagnumOpus.Bot.Backtest

variable (exchange : String)

/-! ### Both accounts of a run -/

def tradeLog (fs : List Fill) : TradeLog := fs.foldl (applyFill exchange) {}

/-- The broker after some fills. -/
def Broker.filled (B : Broker) (s : B.State) (fs : List Fill) : B.State :=
  fs.foldl (fun s f => B.execute s f.size f.price) s

def commissions (fs : List Fill) : ℚ :=
  (fs.map fun f => |getcommission exchange f.size f.price|).sum

/-- The realised profit after commissions. -/
def Broker.netProfit (B : Broker) (fs : List Fill) : ℚ :=
  (B.account (B.filled B.start fs)).realised - commissions exchange fs

/-- The quantity that the fills close. -/
def Broker.totalClosed (B : Broker) : B.State → List Fill → ℚ
  | _, [] => 0
  | s, f :: fs => (B.account s).closed f.size + B.totalClosed (B.execute s f.size f.price) fs

structure Conservative (B : Broker) (fs : List Fill) : Prop where
  profit : ((tradeLog exchange fs).trades.map Trade.pnlNet).sum = B.netProfit exchange fs
  size : ((tradeLog exchange fs).trades.map Trade.size).sum = B.totalClosed B.start fs

/-- Each buy is followed by a sell of the same size. -/
def RoundTrips : List ℚ → Prop
  | [] => True
  | [_] => False
  | q :: q' :: qs => 0 < q ∧ q' = -q ∧ RoundTrips qs

variable {exchange}

/-! ### What the log adds up to -/

def pendingOf (exchange : String) (f : Fill) : PendingEntry where
  entryTs := f.barDt
  entryPrice := f.price
  entrySize := |f.size|
  entryComm := |getcommission exchange f.size f.price|

/-- The sum of a quantity over the trades that are recorded from a pending entry on. -/
def recorded (exchange : String) (w : Trade → ℚ) : Option PendingEntry → List Fill → ℚ
  | _, [] => 0
  | e, f :: fs =>
      if 0 < f.size then recorded exchange w (some (pendingOf exchange f)) fs
      else
        match e with
        | none => recorded exchange w none fs
        | some e => w (closeTrade exchange e f) + recorded exchange w none fs

variable {w : Trade → ℚ} {f : Fill} {fs : List Fill}

theorem recorded_buy (hbuy : 0 < f.size) (e : Option PendingEntry) :
    recorded exchange w e (f :: fs) = recorded exchange w (some (pendingOf exchange f)) fs := by
  cases e with
  | none => simp only [recorded, if_pos hbuy]
  | some e => simp only [recorded, if_pos hbuy]

theorem recorded_sell (hsell : ¬ 0 < f.size) :
    recorded exchange w none (f :: fs) = recorded exchange w none fs := by
  simp only [recorded, if_neg hsell]

theorem recorded_close (hsell : ¬ 0 < f.size) (e : PendingEntry) :
    recorded exchange w (some e) (f :: fs) =
      w (closeTrade exchange e f) + recorded exchange w none fs := by
  simp only [recorded, if_neg hsell]

theorem sum_foldl_applyFill (w : Trade → ℚ) (fs : List Fill) (s : TradeLog) :
    ((fs.foldl (applyFill exchange) s).trades.map w).sum =
      (s.trades.map w).sum + recorded exchange w s.pendingEntry fs := by
  induction fs generalizing s with
  | nil => simp [recorded]
  | cons f fs ih =>
      rw [List.foldl_cons, ih]
      unfold applyFill
      dsimp only
      by_cases hbuy : 0 < f.size
      · rw [if_pos hbuy, recorded_buy hbuy]
        rfl
      · rw [if_neg hbuy]
        cases s.pendingEntry with
        | none => rw [recorded_sell hbuy]
        | some e =>
            rw [recorded_close hbuy, List.map_append, List.sum_append, add_assoc]
            simp

theorem sum_tradeLog (w : Trade → ℚ) (fs : List Fill) :
    ((tradeLog exchange fs).trades.map w).sum = recorded exchange w none fs := by
  rw [tradeLog, sum_foldl_applyFill]
  simp

/-! ### What the broker has -/

theorem account_filled (B : Broker) (fs : List Fill) (s : B.State) :
    B.account (B.filled s fs) = (B.account s).trades (fs.map fun f => (f.size, f.price)) := by
  induction fs generalizing s with
  | nil => rfl
  | cons f fs ih =>
      rw [Broker.filled, List.foldl_cons, List.map_cons, NetPosition.trades_cons,
        ← B.account_execute]
      exact ih _

/-- What is spent on the fills. -/
def spent (fs : List Fill) : ℚ := (fs.map fun f => f.size * f.price).sum

theorem netProfit_of_flat (B : Broker) {fs : List Fill} (hflat : (fs.map Fill.size).sum = 0) :
    B.netProfit exchange fs = -spent fs - commissions exchange fs := by
  have hsizes : ((fs.map fun f => (f.size, f.price)).map Prod.fst).sum = 0 := by
    rw [List.map_map]
    exact hflat
  rw [Broker.netProfit, account_filled, B.account_start, NetPosition.realised_of_flat hsizes,
    List.map_map]
  rfl

/-! ### The difference -/

/-- By how much the log exceeds the broker's profit, from a pending entry on. -/
def excess (exchange : String) (e : Option PendingEntry) (fs : List Fill) : ℚ :=
  recorded exchange Trade.pnlNet e fs + spent fs + commissions exchange fs

theorem profit_iff_excess (B : Broker) {fs : List Fill} (hflat : (fs.map Fill.size).sum = 0) :
    ((tradeLog exchange fs).trades.map Trade.pnlNet).sum = B.netProfit exchange fs ↔
      excess exchange none fs = 0 := by
  rw [sum_tradeLog, netProfit_of_flat B hflat, excess]
  constructor
  · intro h
    rw [h]
    ring
  · intro h
    linear_combination h

theorem commissionRate_bounds (exchange : String) :
    0 ≤ commissionRate exchange ∧ commissionRate exchange < 1 := by
  unfold commissionRate
  dsimp only
  split
  · exact ⟨by norm_num, by norm_num⟩
  · split
    · exact ⟨by norm_num, by norm_num⟩
    · exact ⟨le_rfl, zero_lt_one⟩

theorem abs_getcommission (f : Fill) :
    |getcommission exchange f.size f.price| = |f.size| * f.price * commissionRate exchange := by
  rw [getcommission]
  exact abs_of_nonneg (mul_nonneg (mul_nonneg (abs_nonneg _) f.price_pos.le)
    (commissionRate_bounds exchange).1)

/-- A sell without a pending entry is not recorded. -/
theorem excess_sell {f : Fill} (hsell : f.size < 0) (fs : List Fill) :
    excess exchange none (f :: fs) =
      f.price * (f.size * (1 - commissionRate exchange)) + excess exchange none fs := by
  simp only [excess, recorded, if_neg hsell.not_gt, spent, commissions, List.map_cons,
    List.sum_cons, abs_getcommission, abs_of_neg hsell]
  ring

theorem excess_buy {f : Fill} (hbuy : 0 < f.size) {fs : List Fill}
    (hnext : ∀ g ∈ fs.head?, 0 < g.size) :
    excess exchange none (f :: fs) =
      f.price * (f.size * (1 + commissionRate exchange)) + excess exchange none fs := by
  have hrecorded : recorded exchange Trade.pnlNet (some (pendingOf exchange f)) fs =
      recorded exchange Trade.pnlNet none fs := by
    cases fs with
    | nil => rfl
    | cons g fs => simp only [recorded, if_pos (hnext g rfl)]
  simp only [excess, recorded, if_pos hbuy, hrecorded, spent, commissions, List.map_cons,
    List.sum_cons, abs_getcommission, abs_of_pos hbuy]
  ring

/-- A buy and the sell after it are recorded as one trade of the size of the sell. -/
theorem excess_roundTrip {f g : Fill} (hbuy : 0 < f.size) (hsell : g.size < 0) (fs : List Fill) :
    excess exchange none (f :: g :: fs) =
      f.price * (f.size + g.size) + excess exchange none fs := by
  simp only [excess, recorded, if_pos hbuy, if_neg hsell.not_gt, spent, commissions,
    List.map_cons, List.sum_cons, closeTrade, pendingOf, abs_getcommission, abs_of_pos hbuy,
    abs_of_neg hsell]
  ring

/-- What does not depend on the price of the first fill vanishes when nothing is in excess at any
price. -/
theorem eq_zero_of_prices {c r : ℚ} (h : ∀ p, 0 < p → p * c + r = 0) : c = 0 ∧ r = 0 := by
  have hone := h 1 one_pos
  have htwo := h 2 two_pos
  exact ⟨by linarith, by linarith⟩

def Fill.atPrice (f : Fill) (p : ℚ) (hp : 0 < p) : Fill := { f with price := p, price_pos := hp }

/-- A first fill that is not recorded puts the log in excess at some price. -/
theorem not_excess_unrecorded {g : Fill} {fs : List Fill} (c : ℚ) (hc : c ≠ 0)
    (hlost : ∀ p hp, excess exchange none (g.atPrice p hp :: fs) =
      p * (g.size * c) + excess exchange none fs) :
    ¬ ∀ p hp, excess exchange none (g.atPrice p hp :: fs) = 0 := by
  intro h
  have hzero : g.size * c = 0 :=
    (eq_zero_of_prices fun p hp => (hlost p hp).symm.trans (h p hp)).1
  exact mul_ne_zero g.size_ne hc hzero

theorem not_excess_sell {g : Fill} (hsell : g.size < 0) (fs : List Fill) :
    ¬ ∀ p hp, excess exchange none (g.atPrice p hp :: fs) = 0 := by
  have hrate := commissionRate_bounds exchange
  refine not_excess_unrecorded (1 - commissionRate exchange) (by linarith) fun p hp => ?_
  exact excess_sell (f := g.atPrice p hp) hsell fs

theorem not_excess_buy {g : Fill} (hbuy : 0 < g.size) {fs : List Fill}
    (hnext : ∀ f ∈ fs.head?, 0 < f.size) :
    ¬ ∀ p hp, excess exchange none (g.atPrice p hp :: fs) = 0 := by
  have hrate := commissionRate_bounds exchange
  refine not_excess_unrecorded (1 + commissionRate exchange) (by linarith) fun p hp => ?_
  exact excess_buy (f := g.atPrice p hp) hbuy hnext

/-- When no prices put the log in excess, the fills are round trips. -/
theorem roundTrips_of_excess : ∀ gs : List Fill,
    (∀ fs, fs.map Fill.size = gs.map Fill.size → excess exchange none fs = 0) →
    RoundTrips (gs.map Fill.size)
  | [], _ => trivial
  | [g], h => by
      have hall : ∀ p hp, excess exchange none [g.atPrice p hp] = 0 := fun p hp => h _ rfl
      rcases lt_or_gt_of_ne g.size_ne with hsell | hbuy
      · exact absurd hall (not_excess_sell hsell [])
      · exact absurd hall (not_excess_buy hbuy (by simp))
  | g :: g' :: gs, h => by
      have hall : ∀ p hp, excess exchange none (g.atPrice p hp :: g' :: gs) = 0 :=
        fun p hp => h _ rfl
      rcases lt_or_gt_of_ne g.size_ne with hsell | hbuy
      · exact absurd hall (not_excess_sell hsell (g' :: gs))
      · rcases lt_or_gt_of_ne g'.size_ne with hsell' | hbuy'
        · have htrip : ∀ fs, fs.map Fill.size = gs.map Fill.size →
              g.size + g'.size = 0 ∧ excess exchange none fs = 0 := by
            intro fs hfs
            refine eq_zero_of_prices fun p hp => ?_
            have hsizes : (g.atPrice p hp :: g' :: fs).map Fill.size =
                (g :: g' :: gs).map Fill.size := by
              simp only [List.map_cons, hfs, Fill.atPrice]
            exact (excess_roundTrip (f := g.atPrice p hp) hbuy hsell' fs).symm.trans (h _ hsizes)
          refine ⟨hbuy, ?_, roundTrips_of_excess gs fun fs hfs => (htrip fs hfs).2⟩
          linear_combination (htrip gs rfl).1
        · exact absurd hall (not_excess_buy hbuy (by simpa using hbuy'))

/-! ### Round trips -/

theorem excess_of_roundTrips : ∀ fs : List Fill, RoundTrips (fs.map Fill.size) →
    excess exchange none fs = 0
  | [], _ => by simp [excess, recorded, spent, commissions]
  | [_], h => h.elim
  | f :: g :: fs, ⟨hbuy, hsize, hrest⟩ => by
      have hsell : g.size < 0 := by rw [hsize]; exact neg_neg_of_pos hbuy
      rw [excess_roundTrip hbuy hsell, excess_of_roundTrips fs hrest, hsize]
      ring

theorem size_of_roundTrips (B : Broker) : ∀ (fs : List Fill) (s : B.State),
    (B.account s).size = 0 → RoundTrips (fs.map Fill.size) →
    recorded exchange Trade.size none fs = B.totalClosed s fs
  | [], _, _, _ => rfl
  | [_], _, _, h => h.elim
  | f :: g :: fs, s, hflat, ⟨hbuy, hsize, hrest⟩ => by
      have hsell : g.size < 0 := by rw [hsize]; exact neg_neg_of_pos hbuy
      have hopened : (B.account (B.execute s f.size f.price)).size = f.size := by
        rw [B.account_execute, NetPosition.size_trade, hflat, zero_add]
      have hclosed : (B.account (B.execute (B.execute s f.size f.price) g.size g.price)).size =
          0 := by
        rw [B.account_execute, NetPosition.size_trade, hopened, hsize, add_neg_cancel]
      have hfirst : (B.account s).closed f.size = 0 := by
        rw [NetPosition.closed, hflat, zero_mul, if_pos le_rfl]
      have hneg : ¬ 0 ≤ f.size * g.size := not_le.mpr (mul_neg_of_pos_of_neg hbuy hsell)
      have hsecond : (B.account (B.execute s f.size f.price)).closed g.size = |g.size| := by
        rw [NetPosition.closed, hopened, if_neg hneg, hsize, abs_neg, min_self]
      rw [Broker.totalClosed, Broker.totalClosed, hfirst, hsecond, zero_add,
        ← size_of_roundTrips B fs _ hclosed hrest]
      simp only [recorded, if_pos hbuy, if_neg hsell.not_gt, closeTrade]

/-- **The trade log is conservative**, whatever the prices of the fills, exactly when the fills are
round trips. -/
theorem conservative_iff (exchange : String) (B : Broker) (gs : List Fill)
    (hflat : (gs.map Fill.size).sum = 0) :
    (∀ fs, fs.map Fill.size = gs.map Fill.size → Conservative exchange B fs) ↔
      RoundTrips (gs.map Fill.size) := by
  constructor
  · intro h
    have hzero : ∀ fs, fs.map Fill.size = gs.map Fill.size → excess exchange none fs = 0 :=
      fun fs hfs => (profit_iff_excess B (hfs ▸ hflat)).mp (h fs hfs).profit
    exact roundTrips_of_excess gs hzero
  · intro h fs hfs
    rw [← hfs] at h hflat
    refine ⟨(profit_iff_excess B hflat).mpr (excess_of_roundTrips fs h), ?_⟩
    rw [sum_tradeLog]
    refine size_of_roundTrips B fs B.start ?_ h
    rw [B.account_start]

theorem one_dollar_pos : (0 : ℚ) < 1 := one_pos

theorem one_unit_ne : (1 : ℚ) ≠ 0 := one_ne_zero

theorem minus_one_unit_ne : (-1 : ℚ) ≠ 0 := neg_ne_zero.mpr one_ne_zero

/-- A unit is bought. -/
def bought (price : ℚ) (h : 0 < price) : Fill where
  barDt := "10:00"
  price := price
  size := 1
  price_pos := h
  size_ne := one_unit_ne

/-- A unit is sold. -/
def sold (price : ℚ) (h : 0 < price) : Fill where
  barDt := "11:00"
  price := price
  size := -1
  price_pos := h
  size_ne := minus_one_unit_ne

/-- A trip that wins and one that loses. -/
def twoTrips : List Fill :=
  [bought 7 (by norm_num), sold 9 (by norm_num), bought 8 (by norm_num), sold 5 (by norm_num)]

theorem conservative_roundTrip : Conservative "kucoin" netBroker twoTrips :=
  (conservative_iff "kucoin" netBroker twoTrips (by simp [twoTrips, bought, sold])).mpr
    ⟨one_pos, rfl, one_pos, rfl, trivial⟩ twoTrips rfl

def buyOne : Fill where
  barDt := "10:00"
  price := 1
  size := 1
  price_pos := one_dollar_pos
  size_ne := one_unit_ne

def sellOne : Fill where
  barDt := "11:00"
  price := 1
  size := -1
  price_pos := one_dollar_pos
  size_ne := minus_one_unit_ne

/-- A position is bought in two parts and sold in two parts: the first buy is overwritten and the
second sell is not recorded. -/
def twoParts : List Fill := [buyOne, buyOne, sellOne, sellOne]

theorem twoParts_not_conservative :
    (twoParts.map Fill.size).sum = 0 ∧ ¬ Conservative "kucoin" netBroker twoParts := by
  refine ⟨by simp [twoParts, buyOne, sellOne], fun h => ?_⟩
  have hsize := h.size
  exact absurd hsize (by decide +kernel)

end MagnumOpus.Bot.Backtest
