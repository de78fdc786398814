import Mathlib.Algebra.BigOperators.Group.List.Basic
import Mathlib.Algebra.Order.Group.Defs
import Mathlib.Data.List.GetD

/-! # Growing a span greedily

A span of a list of weights is grown by one place at a time, to the heavier of its two neighbours,
and to the right when they weigh the same (`widen`).  `grown` is what it comes to after a number of
steps; it keeps the place it started from, and ends with the whole list.

`reach` grows a span until it weighs enough, as far as its weights have been added up (`held`).  The
addition may round.  It stops at the first span that weighs enough, or with the whole list
(`exists_grown_reach`).  Where nothing is rounded, `held` is the `total` of the span. -/

namespace MagnumOpus

variable {K : Type*} [AddCommGroup K] [LinearOrder K]

/-- The places from `lo` to `hi`, both included. -/
structure Span where
  lo : ℕ
  hi : ℕ
deriving DecidableEq

namespace Span

/-- What the places weigh. -/
def total (xs : List K) (s : Span) : K := ((xs.take (s.hi + 1)).drop s.lo).sum

/-- Some of the list lies outside. -/
def CanGrow (xs : List K) (s : Span) : Prop := 0 < s.lo ∨ s.hi < xs.length - 1

instance (xs : List K) (s : Span) : Decidable (s.CanGrow xs) :=
  inferInstanceAs (Decidable (0 < s.lo ∨ s.hi < xs.length - 1))

/-- The next place is the one on the right. -/
def growsRight (xs : List K) (s : Span) : Prop :=
  s.hi < xs.length - 1 ∧ (0 < s.lo → xs.getD (s.lo - 1) 0 ≤ xs.getD (s.hi + 1) 0)

instance (xs : List K) (s : Span) : Decidable (s.growsRight xs) :=
  inferInstanceAs (Decidable (s.hi < xs.length - 1 ∧
    (0 < s.lo → xs.getD (s.lo - 1) 0 ≤ xs.getD (s.hi + 1) 0)))

def widen (xs : List K) (s : Span) : Span :=
  if s.growsRight xs then ⟨s.lo, s.hi + 1⟩ else ⟨s.lo - 1, s.hi⟩

/-- The place that the next step adds. -/
def next (xs : List K) (s : Span) : ℕ := if s.growsRight xs then s.hi + 1 else s.lo - 1

def grown (xs : List K) (s : Span) : ℕ → Span
  | 0 => s
  | n + 1 => grown xs (s.widen xs) n

/-- What is added up in `n` steps, from `w` on. -/
def held (add : K → K → K) (xs : List K) (s : Span) (w : K) : ℕ → K
  | 0 => w
  | n + 1 => held add xs (s.widen xs) (add w (xs.getD (s.next xs) 0)) n

/-- Grows the span until it weighs `target`, by at most `n` steps; shows what has been added up. -/
def reach (add : K → K → K) (xs : List K) (target : K) : ℕ → Span → K → Span × K
  | 0, s, w => (s, w)
  | n + 1, s, w =>
      if w < target ∧ s.CanGrow xs then
        reach add xs target n (s.widen xs) (add w (xs.getD (s.next xs) 0))
      else (s, w)

/-- The places are ones of the list. -/
structure Within (xs : List K) (s : Span) : Prop where
  ordered : s.lo ≤ s.hi
  bounded : s.hi < xs.length

variable {xs : List K} {s : Span}

theorem widen_of_growsRight (h : s.growsRight xs) : s.widen xs = ⟨s.lo, s.hi + 1⟩ := if_pos h

theorem widen_of_not_growsRight (h : ¬ s.growsRight xs) : s.widen xs = ⟨s.lo - 1, s.hi⟩ :=
  if_neg h

/-- A span that cannot grow to the right grows to the left. -/
theorem lo_pos_of_not_growsRight (hgrow : s.CanGrow xs) (h : ¬ s.growsRight xs) : 0 < s.lo := by
  by_contra hlo
  exact h ⟨hgrow.resolve_left hlo, fun hpos => absurd hpos hlo⟩

theorem Within.widen (h : Within xs s) : Within xs (s.widen xs) := by
  have hord := h.ordered
  have hbound := h.bounded
  by_cases hright : s.growsRight xs
  · rw [widen_of_growsRight hright]
    have hhi := hright.1
    exact ⟨by simp only; omega, by simp only; omega⟩
  · rw [widen_of_not_growsRight hright]
    exact ⟨by simp only; omega, hbound⟩

/-- The next place is added to what the span weighs. -/
theorem total_widen (h : Within xs s) (hgrow : s.CanGrow xs) :
    (s.widen xs).total xs = s.total xs + xs.getD (s.next xs) 0 := by
  have hord := h.ordered
  have hbound := h.bounded
  by_cases hright : s.growsRight xs
  · have hhi : s.hi + 1 < xs.length := by
      have := hright.1
      omega
    have hlen : (xs.take (s.hi + 1)).length = s.hi + 1 := List.length_take_of_le hhi.le
    rw [widen_of_growsRight hright, next, if_pos hright]
    simp only [total]
    rw [List.take_succ_eq_append_getElem hhi, List.drop_append_of_le_length (by rw [hlen]; omega),
      List.sum_append, List.sum_singleton, List.getD_eq_getElem xs 0 hhi]
  · have hlo := lo_pos_of_not_growsRight hgrow hright
    have hlt : s.lo - 1 < (xs.take (s.hi + 1)).length := by
      rw [List.length_take]
      omega
    rw [widen_of_not_growsRight hright, next, if_neg hright]
    simp only [total]
    rw [List.drop_eq_getElem_cons hlt, List.sum_cons, Nat.sub_add_cancel hlo, add_comm,
      List.getElem_take, List.getD_eq_getElem]

omit [LinearOrder K] in
/-- A span that cannot grow is the whole list. -/
theorem total_of_not_canGrow (h : ¬ s.CanGrow xs) (hwithin : Within xs s) :
    s.total xs = xs.sum := by
  have hbound := hwithin.bounded
  obtain ⟨hlo, hhi⟩ := not_or.mp h
  have hlo' : s.lo = 0 := Nat.eq_zero_of_not_pos hlo
  rw [total, hlo', List.drop_zero, List.take_of_length_le (by omega)]

/-- A span only grows. -/
theorem widen_contains (xs : List K) (s : Span) :
    (s.widen xs).lo ≤ s.lo ∧ s.hi ≤ (s.widen xs).hi := by
  unfold widen
  split
  · exact ⟨le_refl _, Nat.le_succ _⟩
  · exact ⟨Nat.sub_le _ _, le_refl _⟩

/-- The places outside the span. -/
def outside (xs : List K) (s : Span) : ℕ := s.lo + (xs.length - 1 - s.hi)

omit [AddCommGroup K] [LinearOrder K] in
theorem not_canGrow_of_outside (h : s.outside xs = 0) : ¬ s.CanGrow xs := by
  unfold outside at h
  rintro (hlo | hhi) <;> omega

/-- Each step takes one place in. -/
theorem outside_widen (hgrow : s.CanGrow xs) :
    (s.widen xs).outside xs + 1 = s.outside xs := by
  by_cases hright : s.growsRight xs
  · have hhi := hright.1
    rw [widen_of_growsRight hright]
    simp only [outside]
    omega
  · have hlo := lo_pos_of_not_growsRight hgrow hright
    rw [widen_of_not_growsRight hright]
    simp only [outside]
    omega

/-- Without rounding, the span is weighed. -/
theorem held_add : ∀ (n : ℕ) {s : Span}, Within xs s → (∀ m < n, (grown xs s m).CanGrow xs) →
    held (· + ·) xs s (s.total xs) n = (grown xs s n).total xs
  | 0, _, _, _ => rfl
  | n + 1, s, hwithin, hgrow => by
      rw [held, ← total_widen hwithin (hgrow 0 n.succ_pos)]
      exact held_add n hwithin.widen fun m hm => hgrow (m + 1) (Nat.succ_lt_succ hm)

/-- With a step for each place outside, the span is grown until it weighs enough or is the whole
list, and no further. -/
theorem exists_grown_reach (add : K → K → K) (target : K) : ∀ (n : ℕ) {s : Span} {w : K},
    Within xs s → s.outside xs ≤ n →
    ∃ k, reach add xs target n s w = (grown xs s k, held add xs s w k) ∧
      Within xs (grown xs s k) ∧ (grown xs s k).lo ≤ s.lo ∧ s.hi ≤ (grown xs s k).hi ∧
      (target ≤ held add xs s w k ∨ ¬ (grown xs s k).CanGrow xs) ∧
      ∀ m < k, held add xs s w m < target ∧ (grown xs s m).CanGrow xs
  | 0, s, w, hwithin, hle =>
      ⟨0, rfl, hwithin, le_refl _, le_refl _, .inr (not_canGrow_of_outside (Nat.le_zero.mp hle)),
        fun m hm => absurd hm (Nat.not_lt_zero m)⟩
  | n + 1, s, w, hwithin, hle => by
      by_cases hgoes : w < target ∧ s.CanGrow xs
      · have hstep := outside_widen hgoes.2
        obtain ⟨k, hreach, hwithin', hlo, hhi, hend, hbefore⟩ :=
          exists_grown_reach add target n (w := add w (xs.getD (s.next xs) 0)) hwithin.widen
            (by omega)
        obtain ⟨hlo', hhi'⟩ := widen_contains xs s
        refine ⟨k + 1, ?_, hwithin', hlo.trans hlo', hhi'.trans hhi, hend, ?_⟩
        · rw [reach, if_pos hgoes, hreach]
          rfl
        · intro m hm
          cases m with
          | zero => exact hgoes
          | succ m => exact hbefore m (Nat.lt_of_succ_lt_succ hm)
      · refine ⟨0, by rw [reach, if_neg hgoes]; rfl, hwithin, le_refl _, le_refl _, ?_,
          fun m hm => absurd hm (Nat.not_lt_zero m)⟩
        exact (not_and_or.mp hgoes).imp_left not_lt.mp

end Span

end MagnumOpus
