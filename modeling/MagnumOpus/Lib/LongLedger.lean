import Mathlib.Algebra.Order.Field.Basic
import Mathlib.Tactic.Ring

/-! # A ledger of a long position

What was bought and sold of one asset that is never sold short: the quantity held, the money paid
and received, and the prices paid since the position was last flat.  A sale counts up to what is
held.

An average price is a basis of the ledger (`Basis`) when it is zero for a flat position and lies
between those prices otherwise.  Averaging a purchase in and keeping the price at a sale lead from
a basis to a basis, and the profit that a basis tells (`profit`) moves by what the sale earns over
it. -/

namespace MagnumOpus

variable {K : Type*} [Field K] [LinearOrder K]

structure LongLedger (K : Type*) [Zero K] where
  held : K := 0
  paid : K := 0
  received : K := 0
  /-- The prices paid since the position was last flat. -/
  prices : List K := []

namespace LongLedger

def buy (l : LongLedger K) (q p : K) : LongLedger K where
  held := l.held + q
  paid := l.paid + p * q
  received := l.received
  prices := p :: l.prices

/-- The part of a sale that counts. -/
def counted (l : LongLedger K) (q : K) : K := min q l.held

def sell (l : LongLedger K) (q p : K) : LongLedger K where
  held := l.held - l.counted q
  paid := l.paid
  received := l.received + p * l.counted q
  prices := if l.held - l.counted q = 0 then [] else l.prices

/-- What has come in and what is held at the price `avg`, less what was paid. -/
def profit (l : LongLedger K) (avg : K) : K := l.received - l.paid + l.held * avg

/-- The average price of what is held. -/
structure Basis (l : LongLedger K) (avg : K) : Prop where
  nonneg : 0 ≤ l.held
  flat : l.held = 0 → avg = 0
  between : l.held ≠ 0 → ∃ lo ∈ l.prices, ∃ hi ∈ l.prices, lo ≤ avg ∧ avg ≤ hi

theorem basis_new : Basis ({} : LongLedger K) 0 where
  nonneg := le_refl 0
  flat := fun _ => rfl
  between := fun h => absurd rfl h

variable [IsStrictOrderedRing K] {l : LongLedger K} {avg q p : K}

/-- A weighted mean lies between the two values. -/
theorem mean_between (avg p : K) (hheld : 0 ≤ l.held) (hq : 0 < q) :
    min avg p ≤ (avg * l.held + p * q) / (l.held + q) ∧
      (avg * l.held + p * q) / (l.held + q) ≤ max avg p := by
  have hpos : 0 < l.held + q := add_pos_of_nonneg_of_pos hheld hq
  constructor
  · rw [le_div_iff₀ hpos, mul_add]
    exact add_le_add (mul_le_mul_of_nonneg_right (min_le_left _ _) hheld)
      (mul_le_mul_of_nonneg_right (min_le_right _ _) hq.le)
  · rw [div_le_iff₀ hpos, mul_add]
    exact add_le_add (mul_le_mul_of_nonneg_right (le_max_left _ _) hheld)
      (mul_le_mul_of_nonneg_right (le_max_right _ _) hq.le)

/-- A purchase is averaged in. -/
theorem Basis.buy (h : Basis l avg) (hq : 0 < q) (p : K) :
    Basis (l.buy q p) ((avg * l.held + p * q) / (l.held + q)) := by
  have hpos : 0 < l.held + q := add_pos_of_nonneg_of_pos h.nonneg hq
  refine ⟨hpos.le, fun hflat => absurd hflat hpos.ne', fun _ => ?_⟩
  by_cases hheld : l.held = 0
  · have hmean : (avg * l.held + p * q) / (l.held + q) = p := by
      rw [hheld, mul_zero, zero_add, zero_add, mul_div_cancel_right₀ p hq.ne']
    rw [hmean]
    exact ⟨p, List.mem_cons_self, p, List.mem_cons_self, le_refl p, le_refl p⟩
  · obtain ⟨lo, hlo, hi, hhi, hle, hge⟩ := h.between hheld
    obtain ⟨hmin, hmax⟩ := mean_between avg p h.nonneg hq
    have hlo' : ∃ x ∈ p :: l.prices, x ≤ min avg p := by
      rcases min_choice avg p with heq | heq <;> rw [heq]
      · exact ⟨lo, List.mem_cons_of_mem p hlo, hle⟩
      · exact ⟨p, List.mem_cons_self, le_refl p⟩
    have hhi' : ∃ x ∈ p :: l.prices, max avg p ≤ x := by
      rcases max_choice avg p with heq | heq <;> rw [heq]
      · exact ⟨hi, List.mem_cons_of_mem p hhi, hge⟩
      · exact ⟨p, List.mem_cons_self, le_refl p⟩
    obtain ⟨x, hx, hxle⟩ := hlo'
    obtain ⟨y, hy, hyge⟩ := hhi'
    exact ⟨x, hx, y, hy, hxle.trans hmin, hmax.trans hyge⟩

/-- A sale leaves the price of the rest. -/
theorem Basis.sell (h : Basis l avg) (hq : 0 < q) (p : K) :
    Basis (l.sell q p) (if l.held - l.counted q = 0 then 0 else avg) := by
  have hnonneg : 0 ≤ l.held - l.counted q := sub_nonneg.mpr (min_le_right q l.held)
  by_cases hflat : l.held - l.counted q = 0
  · rw [if_pos hflat]
    exact ⟨hnonneg, fun _ => rfl, fun hne => absurd hflat hne⟩
  · rw [if_neg hflat]
    have hheld : l.held ≠ 0 := by
      intro hzero
      apply hflat
      rw [counted, hzero, min_eq_right hq.le, sub_zero]
    refine ⟨hnonneg, fun hzero => absurd hzero hflat, fun _ => ?_⟩
    simp only [LongLedger.sell, if_neg hflat]
    exact h.between hheld

/-- A purchase earns nothing. -/
theorem profit_buy (hheld : 0 ≤ l.held) (hq : 0 < q) :
    (l.buy q p).profit ((avg * l.held + p * q) / (l.held + q)) = l.profit avg := by
  have hne : l.held + q ≠ 0 := (add_pos_of_nonneg_of_pos hheld hq).ne'
  have hcost : (l.held + q) * ((avg * l.held + p * q) / (l.held + q)) = avg * l.held + p * q :=
    mul_div_cancel₀ _ hne
  simp only [profit, buy, hcost]
  ring

omit [IsStrictOrderedRing K] in
/-- A sale earns what it brings over the average price. -/
theorem profit_sell (l : LongLedger K) (avg q p : K) :
    (l.sell q p).profit (if l.held - l.counted q = 0 then 0 else avg) =
      l.profit avg + l.counted q * (p - avg) := by
  have hrest : (l.held - l.counted q) * (if l.held - l.counted q = 0 then 0 else avg) =
      (l.held - l.counted q) * avg := by
    split
    · next hflat => rw [hflat, zero_mul, zero_mul]
    · rfl
  simp only [profit, sell, hrest]
  ring

end LongLedger

end MagnumOpus
