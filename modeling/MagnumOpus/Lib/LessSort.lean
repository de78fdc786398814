import Mathlib.Data.List.Sort

/-! # Sorts by a comparison

A sort is given a function that says whether one element goes before another.  Where this is a weak
order on the elements (`WeakOrderOn`), no element of the result goes before an earlier one; where
it is none, the result is some permutation.  Elements of which neither goes before the other may
stand in any order, so the result depends on the order of the input unless there are none
(`LessSort.sort_congr`). -/

namespace MagnumOpus

variable {α : Type*}

/-- On these elements the comparison is a weak order. -/
structure WeakOrderOn (less : α → α → Bool) (xs : List α) : Prop where
  asymm : ∀ a ∈ xs, ∀ b ∈ xs, less a b → ¬ less b a
  trans : ∀ a ∈ xs, ∀ b ∈ xs, ∀ c ∈ xs, ¬ less b a → ¬ less c b → ¬ less c a

theorem WeakOrderOn.of_subset {less : α → α → Bool} {xs ys : List α} (h : WeakOrderOn less xs)
    (hsub : ys ⊆ xs) : WeakOrderOn less ys where
  asymm := fun a ha b hb => h.asymm a (hsub ha) b (hsub hb)
  trans := fun a ha b hb c hc => h.trans a (hsub ha) b (hsub hb) c (hsub hc)

/-- No element goes before an earlier one. -/
def InOrder (less : α → α → Bool) (xs : List α) : Prop := xs.Pairwise fun a b => ¬ less b a

/-- A sort by a comparison. -/
structure LessSort (α : Type*) where
  sort : (α → α → Bool) → List α → List α
  perm : ∀ less xs, (sort less xs).Perm xs
  sorted : ∀ less xs, WeakOrderOn less xs → InOrder less (sort less xs)

namespace LessSort

variable {less : α → α → Bool} {xs ys : List α} {S S' : LessSort α}

theorem inOrder_orderedInsert {a : α} (h : WeakOrderOn less (a :: xs)) (hxs : InOrder less xs) :
    InOrder less (xs.orderedInsert (fun a b => ¬ less b a) a) := by
  induction xs with
  | nil => exact List.pairwise_singleton _ a
  | cons b xs ih =>
      obtain ⟨hb, hrest⟩ := List.pairwise_cons.mp hxs
      have ha : a ∈ a :: b :: xs := List.mem_cons_self
      have hmem : ∀ {c}, c ∈ b :: xs → c ∈ a :: b :: xs := List.mem_cons_of_mem a
      by_cases hlt : less b a
      · rw [List.orderedInsert_cons, if_neg (not_not.mpr hlt)]
        refine List.pairwise_cons.mpr ⟨fun c hc => ?_, ih (h.of_subset ?_) hrest⟩
        · rcases List.mem_orderedInsert _ |>.mp hc with rfl | hc
          · exact h.asymm b (hmem List.mem_cons_self) c ha hlt
          · exact hb c hc
        · exact List.cons_subset_cons a (List.subset_cons_self b xs)
      · rw [List.orderedInsert_cons, if_pos hlt]
        refine List.pairwise_cons.mpr ⟨fun c hc => ?_, hxs⟩
        rcases List.mem_cons.mp hc with rfl | hc'
        · exact hlt
        · exact h.trans a ha b (hmem List.mem_cons_self) c (hmem hc) hlt (hb c hc')

/-- One that keeps the order of elements where neither goes before the other. -/
def insertion : LessSort α where
  sort := fun less xs => xs.insertionSort fun a b => ¬ less b a
  perm := fun _ xs => List.perm_insertionSort _ xs
  sorted := fun less xs h => by
    induction xs with
    | nil => exact List.Pairwise.nil
    | cons a xs ih =>
        have hsub : a :: xs.insertionSort (fun a b => ¬ less b a) ⊆ a :: xs :=
          List.cons_subset_cons a (List.perm_insertionSort _ xs).subset
        exact inOrder_orderedInsert (h.of_subset hsub)
          (ih (h.of_subset (List.subset_cons_self a xs)))

@[simp] theorem mem_sort {a : α} : a ∈ S.sort less xs ↔ a ∈ xs := (S.perm less xs).mem_iff

/-- What stands further down goes before nothing of the first elements. -/
theorem not_less_of_mem_take (h : WeakOrderOn less xs) {n : ℕ} {a b : α}
    (ha : a ∈ (S.sort less xs).take n) (hb : b ∈ (S.sort less xs).drop n) : ¬ less b a := by
  have hsorted := S.sorted less xs h
  rw [InOrder, ← List.take_append_drop n (S.sort less xs)] at hsorted
  exact (List.pairwise_append.mp hsorted).2.2 a ha b hb

/-- The sorted list depends on the elements only, when of any two one goes before the other. -/
theorem sort_congr (h : WeakOrderOn less xs) (hperm : xs.Perm ys)
    (hties : ∀ a ∈ xs, ∀ b ∈ xs, ¬ less a b → ¬ less b a → a = b) :
    S.sort less xs = S'.sort less ys := by
  have hys : ∀ b ∈ ys, b ∈ xs := fun b => hperm.mem_iff.mpr
  have hall : (S.sort less xs).Perm (S'.sort less ys) :=
    ((S.perm less xs).trans hperm).trans (S'.perm less ys).symm
  refine hall.eq_of_pairwise (fun a b ha hb hab hba => ?_) (S.sorted less xs h)
    (S'.sorted less ys (h.of_subset hys))
  exact hties a (mem_sort.mp ha) b (hys b (mem_sort.mp hb)) hba hab

end LessSort

end MagnumOpus
