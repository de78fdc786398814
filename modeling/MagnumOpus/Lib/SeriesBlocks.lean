import Mathlib.Data.List.Basic
import Mathlib.Order.Bounds.Basic

/-! # Neighbours and blocks of a series

The pairs of neighbours of a series (`adjacent`), and the length of its longest block of equal
entries (`LongestBlock`), as they change when the series grows by one entry.  The longest block is
kept beside the length of the block at the end (`LongestEnd`).  The longest block of one entry
(`LongestBlockOf`) is kept in the same way. -/

namespace MagnumOpus.SeriesBlocks

variable {α : Type*}

/-! ### Neighbours -/

/-- The entries with their successors. -/
def adjacent (xs : List α) : List (α × α) := xs.zip xs.tail

@[simp] theorem adjacent_nil : adjacent ([] : List α) = [] := rfl

@[simp] theorem adjacent_singleton (x : α) : adjacent [x] = [] := rfl

theorem adjacent_cons_cons (x y : α) (xs : List α) :
    adjacent (x :: y :: xs) = (x, y) :: adjacent (y :: xs) := rfl

/-- One more entry follows the last one. -/
theorem adjacent_append (xs : List α) (x : α) :
    adjacent (xs ++ [x]) = adjacent xs ++ (xs.getLast?.map fun y => (y, x)).toList := by
  induction xs with
  | nil => rfl
  | cons y xs ih =>
      cases xs with
      | nil => rfl
      | cons z xs =>
          have hlast : (y :: z :: xs).getLast? = (z :: xs).getLast? := List.getLast?_cons_cons
          rw [hlast]
          exact congrArg (List.cons (y, z)) ih

theorem length_adjacent (xs : List α) : (adjacent xs).length = xs.length - 1 := by
  unfold adjacent
  rw [List.length_zip, List.length_tail]
  omega

theorem map_fst_adjacent (xs : List α) : (adjacent xs).map Prod.fst = xs.dropLast := by
  induction xs with
  | nil => rfl
  | cons x xs ih =>
      cases xs with
      | nil => rfl
      | cons y xs =>
          rw [adjacent_cons_cons, List.map_cons, ih]
          rfl

theorem map_snd_adjacent (xs : List α) : (adjacent xs).map Prod.snd = xs.tail := by
  unfold adjacent
  rw [List.map_snd_zip]
  rw [List.length_tail]
  omega

/-! ### Blocks -/

/-- The length of the longest block of equal entries. -/
def LongestBlock (xs : List α) (n : ℕ) : Prop :=
  IsGreatest {k | ∃ x, List.replicate k x <:+: xs} n

/-- The length of the block of `x` at the end. -/
def LongestEnd (x : α) (xs : List α) (n : ℕ) : Prop :=
  IsGreatest {k | List.replicate k x <:+ xs} n

theorem longestBlock_nil [Inhabited α] : LongestBlock ([] : List α) 0 := by
  refine ⟨⟨default, List.infix_rfl⟩, ?_⟩
  rintro k ⟨x, hk⟩
  have hnil : List.replicate k x = [] := List.infix_nil.mp hk
  exact (List.replicate_eq_nil_iff x |>.mp hnil).le

/-- A block at the end is of the last entry. -/
theorem replicate_suffix_append_iff {k : ℕ} {x y : α} {xs : List α} :
    List.replicate (k + 1) y <:+ xs ++ [x] ↔ y = x ∧ List.replicate k y <:+ xs := by
  rw [List.replicate_succ', List.suffix_concat_iff]
  constructor
  · rintro (hnil | ⟨ys, hys, hsuffix⟩)
    · exact absurd hnil (List.concat_ne_nil _ _)
    · obtain ⟨rfl, rfl⟩ := List.append_singleton_inj.mp hys
      exact ⟨rfl, hsuffix⟩
  · rintro ⟨rfl, hsuffix⟩
    exact .inr ⟨_, rfl, hsuffix⟩

theorem longestEnd_of_getLast?_ne {x : α} {xs : List α} (h : xs.getLast? ≠ some x) :
    LongestEnd x xs 0 := by
  refine ⟨List.nil_suffix, ?_⟩
  intro k hk
  cases k with
  | zero => exact le_refl 0
  | succ k =>
      obtain ⟨ys, rfl⟩ := hk
      rw [List.replicate_succ', ← List.append_assoc, List.getLast?_concat] at h
      exact absurd rfl h

/-- The block at the end grows by an equal entry. -/
theorem LongestEnd.append {x : α} {xs : List α} {n : ℕ} (h : LongestEnd x xs n) :
    LongestEnd x (xs ++ [x]) (n + 1) := by
  refine ⟨replicate_suffix_append_iff.mpr ⟨rfl, h.1⟩, ?_⟩
  intro k hk
  cases k with
  | zero => exact Nat.zero_le _
  | succ k => exact Nat.succ_le_succ (h.2 (replicate_suffix_append_iff.mp hk).2)

/-- The longest block is an earlier one, or the one at the end. -/
theorem LongestBlock.append {x : α} {xs : List α} {m n : ℕ} (h : LongestBlock xs m)
    (hend : LongestEnd x (xs ++ [x]) n) : LongestBlock (xs ++ [x]) (max m n) := by
  constructor
  · rcases le_total m n with hmn | hmn
    · rw [max_eq_right hmn]
      exact ⟨x, hend.1.isInfix⟩
    · rw [max_eq_left hmn]
      obtain ⟨y, hy⟩ := h.1
      exact ⟨y, hy.trans (List.prefix_append xs [x]).isInfix⟩
  · rintro k ⟨y, hy⟩
    rcases List.infix_concat_iff.mp hy with hsuffix | hinfix
    · cases k with
      | zero => exact Nat.zero_le _
      | succ k =>
          obtain ⟨rfl, -⟩ := replicate_suffix_append_iff.mp hsuffix
          exact (hend.2 hsuffix).trans (le_max_right m n)
    · exact (h.2 ⟨y, hinfix⟩).trans (le_max_left m n)

/-! ### Blocks of one entry -/

/-- The length of the longest block of `x`. -/
def LongestBlockOf (x : α) (xs : List α) (n : ℕ) : Prop :=
  IsGreatest {k | List.replicate k x <:+: xs} n

theorem longestBlockOf_nil (x : α) : LongestBlockOf x [] 0 := by
  refine ⟨List.infix_rfl, fun k hk => ?_⟩
  exact (List.replicate_eq_nil_iff x |>.mp (List.infix_nil.mp hk)).le

/-- The longest block is an earlier one, or the one at the end. -/
theorem LongestBlockOf.append {x y : α} {xs : List α} {m n : ℕ} (h : LongestBlockOf x xs m)
    (hend : LongestEnd x (xs ++ [y]) n) : LongestBlockOf x (xs ++ [y]) (max m n) := by
  constructor
  · rcases le_total m n with hmn | hmn
    · rw [max_eq_right hmn]
      exact hend.1.isInfix
    · rw [max_eq_left hmn]
      exact h.1.trans (List.prefix_append xs [y]).isInfix
  · intro k hk
    rcases List.infix_concat_iff.mp hk with hsuffix | hinfix
    · exact (hend.2 hsuffix).trans (le_max_right m n)
    · exact (h.2 hinfix).trans (le_max_left m n)

theorem LongestBlockOf.le_count [DecidableEq α] {x : α} {xs : List α} {n : ℕ}
    (h : LongestBlockOf x xs n) : n ≤ xs.count x := by
  have hcount := h.1.sublist.count_le x
  rwa [List.count_replicate_self] at hcount

end MagnumOpus.SeriesBlocks
