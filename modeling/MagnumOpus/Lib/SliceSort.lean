import Mathlib.Data.List.Sort
import Mathlib.Order.Lattice

/-! # Sorts that need not be stable

A sort by a key puts the keys in order, and may leave the elements of one key in any order.  It
makes the same list of a permutation whenever elements with one key are equal
(`SliceSort.sort_congr`), so then no order in which the elements come matters. -/

namespace MagnumOpus

/-- A sort by a key, which may do anything with elements of one key. -/
structure SliceSort (α κ : Type*) [LinearOrder κ] where
  sort : (α → κ) → List α → List α
  perm : ∀ key xs, (sort key xs).Perm xs
  sorted : ∀ key xs, (sort key xs).Pairwise fun a b => key a ≤ key b

namespace SliceSort

variable {α κ : Type*} [LinearOrder κ]

theorem pairwise_insertion (key : α → κ) (xs : List α) :
    (xs.insertionSort fun a b => key a ≤ key b).Pairwise fun a b => key a ≤ key b := by
  have htotal : Std.Total fun a b : α => key a ≤ key b := ⟨fun a b => le_total (key a) (key b)⟩
  have htrans : IsTrans α fun a b => key a ≤ key b := ⟨fun _ _ _ => le_trans⟩
  exact List.pairwise_insertionSort _ xs

/-- One that keeps the order of elements of one key. -/
def insertion : SliceSort α κ where
  sort := fun key xs => xs.insertionSort fun a b => key a ≤ key b
  perm := fun _ xs => List.perm_insertionSort _ xs
  sorted := pairwise_insertion

variable {S S' : SliceSort α κ} {key : α → κ} {xs ys : List α}

@[simp] theorem mem_sort {a : α} : a ∈ S.sort key xs ↔ a ∈ xs := (S.perm key xs).mem_iff

/-- The sorted list depends on the elements only, when those of one key are equal. -/
theorem sort_congr (h : xs.Perm ys) (hkey : ∀ a ∈ xs, ∀ b ∈ xs, key a = key b → a = b) :
    S.sort key xs = S'.sort key ys := by
  have hperm : (S.sort key xs).Perm (S'.sort key ys) :=
    ((S.perm key xs).trans h).trans (S'.perm key ys).symm
  refine hperm.eq_of_pairwise (fun a b ha hb hab hba => ?_) (S.sorted key xs) (S'.sorted key ys)
  have hb' : b ∈ xs := h.mem_iff.mpr (mem_sort.mp hb)
  exact hkey a (mem_sort.mp ha) b hb' (le_antisymm hab hba)

end SliceSort

end MagnumOpus
