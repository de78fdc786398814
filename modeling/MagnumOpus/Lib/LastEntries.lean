import Mathlib.Data.List.Dedup
import Mathlib.Data.List.DropRight

/-! # The last entries of a list

`xs.rtake n` is what a buffer of capacity `n` holds after it was given the entries `xs` one after
another.  What it holds after more entries depends on what it holds alone (`rtake_append_rtake`), so
that it can be carried on from there.

`push n xs x` is a bounded queue: the new entry joins at the end, and the first one leaves when
there are more than `n`. -/

namespace MagnumOpus.LastEntries

variable {α : Type*} {n : ℕ}

theorem rtake_of_length_le {xs : List α} (h : xs.length ≤ n) : xs.rtake n = xs := by
  rw [List.rtake, Nat.sub_eq_zero_of_le h, List.drop_zero]

theorem length_rtake (n : ℕ) (xs : List α) : (xs.rtake n).length = min n xs.length := by
  rw [List.rtake, List.length_drop]
  omega

theorem length_rtake_le (n : ℕ) (xs : List α) : (xs.rtake n).length ≤ n :=
  (length_rtake n xs).trans_le (Nat.min_le_left _ _)

theorem rtake_suffix (n : ℕ) (xs : List α) : xs.rtake n <:+ xs := List.drop_suffix _ xs

theorem rtake_append_of_le {xs ys : List α} (h : n ≤ ys.length) :
    (xs ++ ys).rtake n = ys.rtake n := by
  rw [List.rtake, List.rtake, List.length_append,
    show xs.length + ys.length - n = xs.length + (ys.length - n) by omega, List.drop_append]
  simp

/-- What is given later replaces what was there first. -/
theorem rtake_append_rtake (n : ℕ) (xs ys : List α) :
    (xs.rtake n ++ ys).rtake n = (xs ++ ys).rtake n := by
  obtain ⟨zs, hzs⟩ := rtake_suffix n xs
  by_cases h : n ≤ (xs.rtake n ++ ys).length
  · rw [← rtake_append_of_le h, ← List.append_assoc, hzs]
  · -- nothing has been dropped yet
    have hlen : xs.length ≤ n := by
      rw [List.length_append, length_rtake] at h
      omega
    rw [rtake_of_length_le hlen]

/-- Later entries keep their places when repetitions are left out. -/
theorem dedup_suffix_append [DecidableEq α] (xs ys : List α) : ys.dedup <:+ (xs ++ ys).dedup := by
  induction xs with
  | nil => exact List.suffix_rfl
  | cons x xs ih =>
      rw [List.cons_append, List.dedup_cons]
      split
      · exact ih
      · exact ih.trans (List.suffix_cons x _)

/-- The last entries without repetitions are the last ones when these have none. -/
theorem rtake_dedup [DecidableEq α] {xs : List α} (h : (xs.rtake n).Nodup) :
    xs.dedup.rtake n = xs.rtake n := by
  by_cases hlen : xs.length ≤ n
  · rw [rtake_of_length_le hlen] at h ⊢
    rw [h.dedup, rtake_of_length_le hlen]
  · obtain ⟨zs, hzs⟩ := rtake_suffix n xs
    have hn : (xs.rtake n).length = n := by
      rw [length_rtake]
      omega
    have hsuffix : xs.rtake n <:+ xs.dedup := by
      have hdedup := dedup_suffix_append zs (xs.rtake n)
      rwa [hzs, h.dedup] at hdedup
    obtain ⟨ws, hws⟩ := hsuffix
    rw [← hws, rtake_append_of_le hn.ge, rtake_of_length_le hn.le]

/-! ### Bounded queues -/

def push (n : ℕ) (xs : List α) (x : α) : List α :=
  if n < (xs ++ [x]).length then (xs ++ [x]).drop 1 else xs ++ [x]

theorem push_of_lt {xs : List α} (x : α) (h : xs.length < n) : push n xs x = xs ++ [x] := by
  rw [push, if_neg]
  rw [List.length_append, List.length_singleton]
  omega

theorem push_cons_of_full {xs : List α} (a x : α) (h : (a :: xs).length = n) :
    push n (a :: xs) x = xs ++ [x] := by
  rw [push, if_pos, List.cons_append, List.drop_one, List.tail_cons]
  rw [List.length_append, List.length_singleton]
  omega

theorem push_rtake (n : ℕ) (xs : List α) (x : α) : push n (xs.rtake n) x = (xs ++ [x]).rtake n := by
  rw [← rtake_append_rtake]
  have hle := length_rtake_le n xs
  generalize xs.rtake n = ys at hle ⊢
  rw [push, List.rtake, List.length_append, List.length_singleton]
  split
  · rw [show ys.length + 1 - n = 1 by omega]
  · rw [show ys.length + 1 - n = 0 by omega, List.drop_zero]

end MagnumOpus.LastEntries
