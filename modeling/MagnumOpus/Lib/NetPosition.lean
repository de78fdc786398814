import Mathlib.Algebra.Order.Field.Basic
import Mathlib.Tactic.FieldSimp
import Mathlib.Tactic.Linarith
import Mathlib.Tactic.LinearCombination
import Mathlib.Tactic.Ring

/-! # Net positions at average cost

One account in one asset: a signed quantity, the average price that was paid for it, and the profit
that was realised so far.

* **Trading.** `trade` adds to the position, closes a part of it, or turns it over; a profit is
  realised on what is closed.
* **Conservation.** What closing a position at a price would bring, its open profit, and the
  realised profit together do not change when something is traded at that price
  (`realised_trade_add`), and the open profit only shrinks towards zero (`openProfit_trade`).
  `Settles` says both of a run of trades at one price, which therefore realises a part of what is
  open at its start, whatever the rule that decides on them (`settles_follow`).
* **Cash.** The realised profit is what was received less what was paid, once the position is flat
  (`realised_of_flat`). -/

namespace MagnumOpus

variable {K : Type*} [Field K] [LinearOrder K]

structure NetPosition (K : Type*) [Zero K] where
  size : K := 0
  avgPrice : K := 0
  realised : K := 0

namespace NetPosition

/-- Trades the signed quantity `q` at the price `p`. -/
def trade (a : NetPosition K) (q p : K) : NetPosition K :=
  let size := a.size + q
  if 0 ≤ a.size * q then
    { size
      avgPrice := if size = 0 then 0 else (a.avgPrice * a.size + p * q) / size
      realised := a.realised }
  else if 0 ≤ a.size * size then
    { size
      avgPrice := if size = 0 then 0 else a.avgPrice
      realised := a.realised - q * (p - a.avgPrice) }
  else
    { size
      avgPrice := p
      realised := a.realised + a.size * (p - a.avgPrice) }

/-- The quantity of the position that a trade closes. -/
def closed (a : NetPosition K) (q : K) : K :=
  if 0 ≤ a.size * q then 0 else min |q| |a.size|

/-- What closing the position at the price `p` would realise. -/
def openProfit (a : NetPosition K) (p : K) : K := a.size * (p - a.avgPrice)

/-- Trades one quantity after the other, each at its price. -/
def trades (a : NetPosition K) (l : List (K × K)) : NetPosition K :=
  l.foldl (fun a t => a.trade t.1 t.2) a

@[simp] theorem trades_nil (a : NetPosition K) : a.trades [] = a := rfl

@[simp] theorem trades_cons (a : NetPosition K) (t : K × K) (l : List (K × K)) :
    a.trades (t :: l) = (a.trade t.1 t.2).trades l := rfl

variable {a : NetPosition K} {q p : K}

@[simp] theorem size_trade (a : NetPosition K) (q p : K) : (a.trade q p).size = a.size + q := by
  unfold trade
  dsimp only
  split
  · rfl
  · split
    · rfl
    · rfl

/-- Nothing is traded. -/
theorem trade_zero (h : a.size = 0 → a.avgPrice = 0) (p : K) : a.trade 0 p = a := by
  obtain ⟨size, avgPrice, realised⟩ := a
  by_cases hsize : size = 0
  · have havg : avgPrice = 0 := h hsize
    simp [trade, hsize, havg]
  · simp [trade, hsize]

variable [IsStrictOrderedRing K]

/-- What is added to a position is paid for. -/
theorem cost_add (h : 0 ≤ a.size * q) (p : K) :
    (a.trade q p).avgPrice * (a.size + q) = a.avgPrice * a.size + p * q := by
  simp only [trade, if_pos h]
  by_cases hsize : a.size + q = 0
  · have hq : q = -a.size := by linear_combination hsize
    have hzero : a.size = 0 := by
      have hsq : a.size * a.size ≤ 0 := by
        rw [hq] at h
        linarith [h, mul_neg a.size a.size]
      exact mul_self_eq_zero.mp (le_antisymm hsq (mul_self_nonneg _))
    rw [if_pos hsize, hq, hzero]
    ring
  · rw [if_neg hsize, div_mul_cancel₀ _ hsize]

/-- A trade moves profit from what is open to what is realised, and makes none. -/
theorem realised_trade_add (a : NetPosition K) (q p : K) :
    (a.trade q p).realised + (a.trade q p).openProfit p = a.realised + a.openProfit p := by
  by_cases hadd : 0 ≤ a.size * q
  · have hcost := cost_add hadd p
    have hrealised : (a.trade q p).realised = a.realised := by simp only [trade, if_pos hadd]
    rw [hrealised, openProfit, openProfit, size_trade]
    linear_combination -hcost
  · by_cases hclose : 0 ≤ a.size * (a.size + q)
    · simp only [trade, if_neg hadd, if_pos hclose, openProfit]
      by_cases hsize : a.size + q = 0
      · have hq : q = -a.size := by linear_combination hsize
        rw [hq]
        ring
      · rw [if_neg hsize]
        ring
    · simp only [trade, if_neg hadd, if_neg hclose, openProfit]
      ring

/-- What stays open is a part of what was. -/
theorem openProfit_trade (a : NetPosition K) (q p : K) :
    ∃ t, 0 ≤ t ∧ t ≤ 1 ∧ (a.trade q p).openProfit p = t * a.openProfit p := by
  by_cases hadd : 0 ≤ a.size * q
  · refine ⟨1, zero_le_one, le_rfl, ?_⟩
    have hcost := cost_add hadd p
    rw [openProfit, openProfit, size_trade]
    linear_combination -hcost
  · have hne : a.size ≠ 0 := by
      rintro hzero
      exact hadd (by rw [hzero, zero_mul])
    by_cases hclose : 0 ≤ a.size * (a.size + q)
    · have hsq : 0 < a.size * a.size := mul_self_pos.mpr hne
      refine ⟨(a.size + q) / a.size, ?_, ?_, ?_⟩
      · rw [← mul_div_mul_left _ _ hne]
        exact div_nonneg hclose hsq.le
      · rw [← mul_div_mul_left _ _ hne, div_le_one hsq]
        have hle := (not_le.mp hadd).le
        linarith [mul_add a.size a.size q]
      · simp only [trade, if_neg hadd, if_pos hclose, openProfit]
        by_cases hsize : a.size + q = 0
        · rw [hsize]
          ring
        · rw [if_neg hsize]
          field_simp
    · refine ⟨0, le_rfl, zero_le_one, ?_⟩
      simp only [trade, if_neg hadd, if_neg hclose, openProfit]
      ring

/-- A trade against the position realises its share of what is open. -/
theorem realised_trade_opposite (h : a.size * q < 0) :
    (a.trade q p).realised = a.realised + min 1 (|q| / |a.size|) * a.openProfit p := by
  have hne : a.size ≠ 0 := left_ne_zero_of_mul h.ne
  have hratio : |q| / |a.size| = -(q / a.size) := by
    rw [← abs_div, abs_of_neg]
    exact div_neg_iff.mpr (mul_neg_iff.mp (mul_comm a.size q ▸ h))
  have hsq : 0 < a.size * a.size := mul_self_pos.mpr hne
  simp only [trade, if_neg h.not_ge]
  split
  · next hclose =>
      have hle : |q| / |a.size| ≤ 1 := by
        rw [hratio, neg_le_iff_add_nonneg, ← div_self hne, ← add_div, ← mul_div_mul_left _ _ hne]
        exact div_nonneg (by linarith [mul_add a.size q a.size, mul_add a.size a.size q]) hsq.le
      rw [min_eq_right hle, hratio, openProfit]
      field_simp
      ring
  · next hturn =>
      have hlt : 1 ≤ |q| / |a.size| := by
        rw [hratio, le_neg, ← sub_nonpos, sub_neg_eq_add, ← div_self hne, ← add_div,
          ← mul_div_mul_left _ _ hne]
        have hneg := (not_le.mp hturn).le
        exact div_nonpos_of_nonpos_of_nonneg
          (by linarith [mul_add a.size q a.size, mul_add a.size a.size q]) hsq.le
      rw [min_eq_left hlt, one_mul]
      rfl

/-! ### Runs at one price -/

/-- The account `b` comes from `a` by trades at the price `p`: they move a part of the open profit
to the realised one. -/
structure Settles (p : K) (a b : NetPosition K) : Prop where
  total : b.realised + b.openProfit p = a.realised + a.openProfit p
  part : ∃ t, 0 ≤ t ∧ t ≤ 1 ∧ b.openProfit p = t * a.openProfit p

theorem settles_refl (p : K) (a : NetPosition K) : Settles p a a :=
  ⟨rfl, 1, zero_le_one, le_rfl, (one_mul _).symm⟩

theorem settles_trade (a : NetPosition K) (q p : K) : Settles p a (a.trade q p) :=
  ⟨realised_trade_add a q p, openProfit_trade a q p⟩

theorem Settles.trans {b c : NetPosition K} (h : Settles p a b) (h' : Settles p b c) :
    Settles p a c := by
  obtain ⟨t, ht, ht', hpart⟩ := h.part
  obtain ⟨u, hu, hu', hpart'⟩ := h'.part
  refine ⟨h'.total.trans h.total, u * t, mul_nonneg hu ht, mul_le_one₀ hu' ht ht', ?_⟩
  rw [hpart', hpart, mul_assoc]

omit [IsStrictOrderedRing K] in
/-- Where nothing is open, trades realise nothing and leave nothing open. -/
theorem Settles.of_openProfit_eq_zero {b : NetPosition K} (h : Settles p a b)
    (hopen : a.openProfit p = 0) : b.realised = a.realised ∧ b.openProfit p = 0 := by
  obtain ⟨t, -, -, hpart⟩ := h.part
  have htotal := h.total
  rw [hopen, mul_zero] at hpart
  rw [hopen, hpart, add_zero, add_zero] at htotal
  exact ⟨htotal, hpart⟩

/-- Where a profit is open, trades realise some of it. -/
theorem Settles.of_nonneg {b : NetPosition K} (h : Settles p a b) (hopen : 0 ≤ a.openProfit p) :
    a.realised ≤ b.realised ∧ b.realised ≤ a.realised + a.openProfit p ∧ 0 ≤ b.openProfit p := by
  obtain ⟨t, ht, ht', hpart⟩ := h.part
  have htotal := h.total
  have hle : t * a.openProfit p ≤ a.openProfit p := mul_le_of_le_one_left hopen ht'
  have hnonneg : 0 ≤ t * a.openProfit p := mul_nonneg ht hopen
  exact ⟨by linarith, by linarith, by linarith⟩

/-! ### Rules -/

section Rules

variable {ι : Type*} {rule : NetPosition K → ι → K → Option K}

/-- Asks a rule what to trade, order by order, each at its price. -/
def follow (rule : NetPosition K → ι → K → Option K) :
    NetPosition K → List (ι × K) → NetPosition K
  | a, [] => a
  | a, e :: l => follow rule ((rule a e.1 e.2).elim a fun q => a.trade q e.2) l

omit [IsStrictOrderedRing K] in
theorem follow_append (a : NetPosition K) (l l' : List (ι × K)) :
    follow rule a (l ++ l') = follow rule (follow rule a l) l' := by
  induction l generalizing a with
  | nil => rfl
  | cons e l ih => exact ih _

/-- A rule that is followed at one price moves a part of the open profit. -/
theorem settles_follow (p : K) (xs : List ι) (a : NetPosition K) :
    Settles p a (follow rule a (xs.map fun x => (x, p))) := by
  induction xs generalizing a with
  | nil => exact settles_refl p a
  | cons x xs ih =>
      rw [List.map_cons, follow]
      cases hrule : rule a x p with
      | none => exact ih a
      | some q => exact (settles_trade a q p).trans (ih _)

omit [IsStrictOrderedRing K] in
/-- What every step preserves that does not clash with an earlier one holds after orders of which no
two clash. -/
theorem follow_pairwise {R : ι → ι → Prop} {ok : K → Prop} {I : List ι → NetPosition K → Prop}
    (hstep : ∀ seen a x p, ok p → I seen a → (∀ r ∈ seen, ¬ R r x) →
      I (x :: seen) ((rule a x p).elim a fun q => a.trade q p)) :
    ∀ (l : List (ι × K)) {seen : List ι} {a : NetPosition K}, (∀ e ∈ l, ok e.2) → I seen a →
      (∀ r ∈ seen, ∀ e ∈ l, ¬ R r e.1) → (l.map Prod.fst).Pairwise (fun r r' => ¬ R r r') →
      I ((l.map Prod.fst).reverse ++ seen) (follow rule a l)
  | [], _, _, _, h, _, _ => h
  | e :: l, seen, a, hok, h, hseen, hpair => by
      rw [List.map_cons, List.pairwise_cons] at hpair
      have hnext := hstep seen a e.1 e.2 (hok e List.mem_cons_self) h
        fun r hr => hseen r hr e List.mem_cons_self
      have hseen' : ∀ r ∈ e.1 :: seen, ∀ e' ∈ l, ¬ R r e'.1 := by
        intro r hr e' he'
        rcases List.mem_cons.mp hr with rfl | hr
        · exact hpair.1 e'.1 (List.mem_map_of_mem he')
        · exact hseen r hr e' (List.mem_cons_of_mem e he')
      have hend := follow_pairwise hstep l (fun e' he' => hok e' (List.mem_cons_of_mem e he'))
        hnext hseen' hpair.2
      rw [List.map_cons, List.reverse_cons, List.append_assoc]
      exact hend

/-- Orders at one price realise nothing and leave nothing open at that price. -/
theorem follow_flat (rule : NetPosition K → ι → K → Option K) (p : K) (xs : List ι) :
    let b := follow rule {} (xs.map fun x => (x, p))
    b.realised = 0 ∧ ∀ q, b.openProfit q = b.size * (q - p) := by
  have hopened : ({} : NetPosition K).openProfit p = 0 := zero_mul _
  obtain ⟨hzero, hflat⟩ := (settles_follow p xs {}).of_openProfit_eq_zero hopened
  refine ⟨hzero, fun q => ?_⟩
  rw [openProfit] at hflat ⊢
  linear_combination hflat

/-- An order against a position that has a profit open realises some of it, and what follows at the
same price takes nothing away. -/
theorem follow_gain {pre post : List ι} {x : ι} {t : K}
    (hrule : rule (follow rule {} (pre.map fun x => (x, p))) x q = some t)
    (hopp : (follow rule {} (pre.map fun x => (x, p))).size * t < 0)
    (hgain : 0 < (follow rule {} (pre.map fun x => (x, p))).size * (q - p)) :
    let l := (pre.map fun x => (x, p)) ++ (x :: post).map fun x => (x, q)
    0 < (follow rule {} l).realised := by
  intro l
  obtain ⟨hzero, hopen⟩ := follow_flat rule p pre
  generalize hb : follow rule {} (pre.map fun x => (x, p)) = b at *
  have hshare : 0 < min 1 (|t| / |b.size|) :=
    lt_min one_pos (div_pos (abs_pos.mpr (right_ne_zero_of_mul hopp.ne))
      (abs_pos.mpr (left_ne_zero_of_mul hopp.ne)))
  have hrealised : 0 < (b.trade t q).realised := by
    rw [realised_trade_opposite hopp, hopen, hzero, zero_add]
    exact mul_pos hshare hgain
  have hrest : 0 ≤ (b.trade t q).openProfit q := by
    obtain ⟨u, hu, -, hpart⟩ := openProfit_trade b t q
    rw [hpart, hopen]
    exact mul_nonneg hu hgain.le
  rw [follow_append, hb, List.map_cons, follow]
  simp only [hrule, Option.elim_some]
  exact hrealised.trans_le ((settles_follow q post _).of_nonneg hrest).1

/-! ### Units -/

/-- The account in other units of size and of price. -/
def scale (a : NetPosition K) (u v : K) : NetPosition K where
  size := u * a.size
  avgPrice := v * a.avgPrice
  realised := u * v * a.realised

omit [LinearOrder K] [IsStrictOrderedRing K] in
@[simp] theorem realised_scale (a : NetPosition K) (u v : K) :
    (a.scale u v).realised = u * v * a.realised := rfl

theorem scale_trade (a : NetPosition K) {u : K} (hu : 0 < u) (v q p : K) :
    (a.scale u v).trade (u * q) (v * p) = (a.trade q p).scale u v := by
  have hsq : 0 < u * u := mul_pos hu hu
  have hsign : ∀ x y : K, 0 ≤ u * x * (u * y) ↔ 0 ≤ x * y := by
    intro x y
    rw [mul_mul_mul_comm]
    exact mul_nonneg_iff_of_pos_left hsq
  have hsize : u * a.size + u * q = u * (a.size + q) := (mul_add u a.size q).symm
  have hne : u * (a.size + q) = 0 ↔ a.size + q = 0 := mul_eq_zero_iff_left hu.ne'
  have hcost : v * a.avgPrice * (u * a.size) + v * p * (u * q) =
      u * (v * (a.avgPrice * a.size + p * q)) := by ring
  unfold trade scale
  simp only [hsize, hsign, hne]
  split
  · next hadd =>
      by_cases hflat : a.size + q = 0
      · simp only [if_pos hflat, mul_zero]
      · simp only [if_neg hflat]
        rw [hcost, mul_div_mul_left _ _ hu.ne', mul_div_assoc]
  · split
    · next hclose =>
        congr 1
        · split
          · rw [mul_zero]
          · rfl
        · ring
    · next hturn =>
        congr 1
        ring

/-- A rule that asks for the same in other units does the same. -/
theorem follow_scale {u v : K} (hu : 0 < u) (a : NetPosition K) (l : List (ι × K))
    (hrule : ∀ a, ∀ e ∈ l, rule (a.scale u v) e.1 (v * e.2) = (rule a e.1 e.2).map (u * ·)) :
    follow rule (a.scale u v) (l.map fun e => (e.1, v * e.2)) = (follow rule a l).scale u v := by
  induction l generalizing a with
  | nil => rfl
  | cons e l ih =>
      have hrest := fun a e' he' => hrule a e' (List.mem_cons_of_mem e he')
      rw [List.map_cons, follow, follow, hrule a e List.mem_cons_self]
      cases rule a e.1 e.2 with
      | none => exact ih a hrest
      | some q =>
          simp only [Option.map_some, Option.elim_some]
          rw [scale_trade a hu]
          exact ih _ hrest

end Rules

/-! ### Cash -/

/-- What was paid for the position. -/
def cost (a : NetPosition K) : K := a.avgPrice * a.size

theorem realised_trade (a : NetPosition K) (q p : K) :
    (a.trade q p).realised - (a.trade q p).cost = a.realised - a.cost - q * p := by
  have htotal := realised_trade_add a q p
  rw [openProfit, openProfit, size_trade] at htotal
  rw [cost, cost, size_trade]
  linear_combination htotal

theorem realised_trades (l : List (K × K)) (a : NetPosition K) :
    (a.trades l).realised - (a.trades l).cost =
      a.realised - a.cost - (l.map fun t => t.1 * t.2).sum := by
  induction l generalizing a with
  | nil => simp
  | cons t l ih =>
      rw [trades_cons, ih, realised_trade, List.map_cons, List.sum_cons]
      ring

omit [IsStrictOrderedRing K] in
theorem size_trades (l : List (K × K)) (a : NetPosition K) :
    (a.trades l).size = a.size + (l.map Prod.fst).sum := by
  induction l generalizing a with
  | nil => simp
  | cons t l ih =>
      rw [trades_cons, ih, size_trade, List.map_cons, List.sum_cons]
      ring

/-- What a run of trades that ends flat has realised: what was received less what was paid. -/
theorem realised_of_flat {l : List (K × K)} (hflat : (l.map Prod.fst).sum = 0) :
    (({} : NetPosition K).trades l).realised = -(l.map fun t => t.1 * t.2).sum := by
  have hsize : (({} : NetPosition K).trades l).size = 0 := by
    rw [size_trades, hflat, add_zero]
  have hrealised := realised_trades l ({} : NetPosition K)
  rw [cost, cost, hsize, mul_zero, mul_zero, sub_zero, sub_zero, zero_sub] at hrealised
  exact hrealised

end NetPosition

end MagnumOpus
