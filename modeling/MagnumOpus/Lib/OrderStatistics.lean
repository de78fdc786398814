import Mathlib.Data.List.Sort
import Mathlib.Order.Lattice

/-! # Order statistics

The entry at index `i` of a sorted list is the one that at most `i` entries are below of, while
more than `i` are not above it (`HasRank`).  No sorting is needed to say that, so that what happens
to the order statistics of a list can be told from what happens to the numbers of entries below a
value: when there are no more of them, no order statistic falls (`HasRank.le_of_countP_le`). -/

namespace MagnumOpus.OrderStatistics

variable {α : Type*} [LinearOrder α] {xs ys : List α} {i : ℕ} {t t' : α}

/-- `t` is at index `i` when the entries are put in order. -/
structure HasRank (i : ℕ) (xs : List α) (t : α) : Prop where
  below : xs.countP (fun x => decide (x < t)) ≤ i
  upTo : i < xs.countP (fun x => decide (x ≤ t))

theorem HasRank.perm (h : HasRank i xs t) (hp : xs.Perm ys) : HasRank i ys t :=
  ⟨hp.countP_eq _ ▸ h.below, hp.countP_eq _ ▸ h.upTo⟩

theorem hasRank_of_sorted {l r : List α} (hs : (l ++ t :: r).Pairwise (· ≤ ·)) :
    HasRank l.length (l ++ t :: r) t := by
  obtain ⟨-, htr, hl⟩ := List.pairwise_append.mp hs
  have hr := (List.pairwise_cons.mp htr).1
  have hnone : (t :: r).countP (fun x => decide (x < t)) = 0 := by
    refine List.countP_eq_zero.mpr fun x hx => ?_
    rw [decide_eq_true_eq, not_lt]
    rcases List.mem_cons.mp hx with rfl | hx
    · exact le_rfl
    · exact hr x hx
  have hall : l.countP (fun x => decide (x ≤ t)) = l.length :=
    List.countP_eq_length.mpr fun x hx => decide_eq_true (hl x hx t List.mem_cons_self)
  constructor
  · rw [List.countP_append, hnone]
    exact List.countP_le_length
  · rw [List.countP_append, hall, List.countP_cons, if_pos (by simp)]
    omega

theorem hasRank_insertionSort (h : (xs.insertionSort (· ≤ ·))[i]? = some t) : HasRank i xs t := by
  obtain ⟨hi, ht⟩ := List.getElem?_eq_some_iff.mp h
  have hsorted : (xs.insertionSort (· ≤ ·)).Pairwise (· ≤ ·) := List.pairwise_insertionSort _ _
  have hsplit : (xs.insertionSort (· ≤ ·)) =
      (xs.insertionSort (· ≤ ·)).take i ++ t :: (xs.insertionSort (· ≤ ·)).drop (i + 1) := by
    rw [← ht, List.getElem_cons_drop, List.take_append_drop]
  rw [hsplit] at hsorted
  have hrank := hasRank_of_sorted hsorted
  rw [← hsplit, List.length_take_of_le hi.le] at hrank
  exact hrank.perm (List.perm_insertionSort _ _)

theorem countP_le_le_countP_lt (h : t' < t) :
    xs.countP (fun x => decide (x ≤ t')) ≤ xs.countP (fun x => decide (x < t)) :=
  List.countP_mono_left fun _ _ hx => decide_eq_true ((of_decide_eq_true hx).trans_lt h)

/-- With no more entries below any value, no order statistic falls. -/
theorem HasRank.le_of_countP_le (h : HasRank i xs t) (h' : HasRank i ys t')
    (hle : ∀ c, ys.countP (fun x => decide (x ≤ c)) ≤ xs.countP (fun x => decide (x ≤ c))) :
    t ≤ t' := by
  by_contra hlt
  have hup := h'.upTo
  have hmono : xs.countP (fun x => decide (x ≤ t')) ≤ xs.countP (fun x => decide (x < t)) :=
    countP_le_le_countP_lt (not_le.mp hlt)
  have hbelow := h.below
  have hc := hle t'
  omega

/-- How many entries are above it. -/
theorem HasRank.countP_lt (h : HasRank i xs t) :
    xs.countP (fun x => decide (t < x)) + (i + 1) ≤ xs.length := by
  have hup := h.upTo
  have hlen := List.length_eq_countP_add_countP (fun x => decide (x ≤ t)) (l := xs)
  have hnot : xs.countP (fun x => decide (t < x)) =
      xs.countP (fun x => decide (¬ decide (x ≤ t) = true)) := by
    refine List.countP_congr fun x _ => ?_
    simp
  omega

/-- An entry that is replaced by a greater one. -/
theorem countP_replace_le {l₁ l₂ : List α} {a b : α} (h : a ≤ b) (c : α) :
    (l₁ ++ b :: l₂).countP (fun x => decide (x ≤ c)) ≤
      (l₁ ++ a :: l₂).countP (fun x => decide (x ≤ c)) := by
  rw [List.countP_append, List.countP_append, List.countP_cons, List.countP_cons]
  by_cases hb : b ≤ c
  · simp [hb, h.trans hb]
  · simp [hb]

end MagnumOpus.OrderStatistics
