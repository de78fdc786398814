import Mathlib.Algebra.BigOperators.Group.List.Lemmas
import Mathlib.Algebra.Order.BigOperators.Group.List
import Mathlib.Algebra.Order.Ring.Abs
import Mathlib.Tactic.Linarith
import Mathlib.Tactic.Ring

/-! # Inequality of numbers

The sum of the absolute differences of all pairs of some numbers (`absDiffs`), which is what the
Gini coefficient is made of, and the sum of the numbers by their ranks (`rankSum`).  Of numbers in
rising order the one is twice the other (`two_mul_rankSum`), and of numbers that are not negative
the sum by ranks stays below the sum taken once for each of them (`rankSum_add_sum_le`). -/

namespace MagnumOpus.Gini

variable {R : Type*} [CommRing R]

/-- The numbers, weighted by how many are before and after each of them. -/
def rankSum (xs : List R) : R :=
  (xs.mapIdx fun i x => (((2 : ℕ) : R) * (i : R) - (xs.length : R) + 1) * x).sum

/-- A constant in all weights counts the whole sum. -/
theorem sum_mapIdx_add (f : ℕ → R) (c : R) (xs : List R) :
    (xs.mapIdx fun i x => (f i + c) * x).sum = (xs.mapIdx fun i x => f i * x).sum + c * xs.sum := by
  induction xs generalizing f with
  | nil => simp
  | cons x xs ih =>
      rw [List.mapIdx_cons, List.mapIdx_cons, List.sum_cons, List.sum_cons, List.sum_cons,
        ih fun i => f (i + 1)]
      ring

theorem rankSum_cons (x : R) (xs : List R) :
    rankSum (x :: xs) = rankSum xs + (xs.sum - xs.length * x) := by
  have hweights : (fun (i : ℕ) (y : R) => (((2 : ℕ) : R) * ((i + 1 : ℕ) : R) -
      ((x :: xs).length : R) + 1) * y) =
      fun (i : ℕ) (y : R) => (((2 : ℕ) : R) * (i : R) - (xs.length : R) + 1 + 1) * y := by
    funext i y
    rw [List.length_cons]
    push_cast
    ring
  have hlength : ((x :: xs).length : R) = xs.length + 1 := by
    rw [List.length_cons, Nat.cast_add, Nat.cast_one]
  unfold rankSum
  rw [List.mapIdx_cons, List.sum_cons, hweights, sum_mapIdx_add, hlength, Nat.cast_zero]
  ring

section Order

variable [LinearOrder R]

/-- The absolute differences of all pairs, each taken both ways. -/
def absDiffs (xs : List R) : R := (xs.map fun x => (xs.map fun y => |x - y|).sum).sum

theorem absDiffs_perm {xs ys : List R} (h : xs.Perm ys) : absDiffs xs = absDiffs ys := by
  have hinner : ∀ x : R, (xs.map fun y => |x - y|).sum = (ys.map fun y => |x - y|).sum :=
    fun x => (h.map _).sum_eq
  unfold absDiffs
  simp only [hinner]
  exact (h.map _).sum_eq

variable [IsStrictOrderedRing R]

theorem sum_abs_sub_of_le {x : R} {xs : List R} (h : ∀ y ∈ xs, x ≤ y) :
    (xs.map fun y => |x - y|).sum = xs.sum - xs.length * x := by
  induction xs with
  | nil => simp
  | cons y xs ih =>
      have hy : x ≤ y := h y List.mem_cons_self
      rw [List.map_cons, List.sum_cons, ih fun z hz => h z (List.mem_cons_of_mem y hz),
        abs_of_nonpos (sub_nonpos.mpr hy), List.sum_cons, List.length_cons]
      push_cast
      ring

/-- A least number adds its differences to the others, both ways. -/
theorem absDiffs_cons {x : R} {xs : List R} (h : ∀ y ∈ xs, x ≤ y) :
    absDiffs (x :: xs) = absDiffs xs + 2 * (xs.sum - xs.length * x) := by
  have hsplit : (xs.map fun y => |y - x| + (xs.map fun z => |y - z|).sum).sum =
      (xs.map fun y => |x - y|).sum + absDiffs xs := by
    rw [List.sum_map_add]
    simp only [abs_sub_comm x]
    rfl
  have hcons : absDiffs (x :: xs) = 0 + (xs.map fun y => |x - y|).sum +
      (xs.map fun y => |y - x| + (xs.map fun z => |y - z|).sum).sum := by
    simp only [absDiffs, List.map_cons, List.sum_cons, sub_self, abs_zero]
  rw [hcons, hsplit, sum_abs_sub_of_le h]
  ring

theorem two_mul_rankSum {xs : List R} (h : xs.Pairwise (· ≤ ·)) :
    2 * rankSum xs = absDiffs xs := by
  induction xs with
  | nil => simp [rankSum, absDiffs]
  | cons x xs ih =>
      obtain ⟨hle, hxs⟩ := List.pairwise_cons.mp h
      rw [rankSum_cons, absDiffs_cons hle, ← ih hxs]
      ring

theorem absDiffs_nonneg (xs : List R) : 0 ≤ absDiffs xs := by
  apply List.sum_nonneg
  intro d hd
  obtain ⟨x, -, rfl⟩ := List.mem_map.mp hd
  apply List.sum_nonneg
  intro d hd
  obtain ⟨y, -, rfl⟩ := List.mem_map.mp hd
  exact abs_nonneg _

theorem rankSum_add_sum_le {xs : List R} (h : ∀ x ∈ xs, 0 ≤ x) :
    rankSum xs + xs.sum ≤ xs.length * xs.sum := by
  induction xs with
  | nil => simp [rankSum]
  | cons x xs ih =>
      have hx : 0 ≤ x := h x List.mem_cons_self
      have hprod : 0 ≤ (xs.length : R) * x := mul_nonneg (Nat.cast_nonneg _) hx
      have hxs := ih fun y hy => h y (List.mem_cons_of_mem x hy)
      rw [rankSum_cons, List.sum_cons, List.length_cons]
      push_cast
      linarith

end Order

end MagnumOpus.Gini
