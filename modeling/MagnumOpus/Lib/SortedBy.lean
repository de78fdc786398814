import Mathlib.Data.List.Nodup
import Mathlib.Order.Lattice

/-! # Lists sorted by a key

Sorting by a key puts the keys in order.  They are strictly increasing when no key comes twice,
which in a sorted list can be seen at its neighbours. -/

namespace MagnumOpus.SortedBy

variable {α κ : Type*} [LinearOrder κ] (key : α → κ)

/-- The keys of a sorted list are in order. -/
theorem pairwise_mergeSort (l : List α) :
    (l.mergeSort fun a b => key a ≤ key b).Pairwise fun a b => key a ≤ key b := by
  refine List.Pairwise.imp (fun {a b} hab => ?_) (List.pairwise_mergeSort ?_ ?_ l)
  · exact decide_eq_true_iff.mp hab
  · intro a b c hab hbc
    rw [decide_eq_true_iff] at hab hbc ⊢
    exact hab.trans hbc
  · intro a b
    rw [Bool.or_eq_true, decide_eq_true_iff, decide_eq_true_iff]
    exact le_total (key a) (key b)

variable {key}

/-- Ordered keys are strictly increasing when neighbours differ. -/
theorem pairwise_lt_of_isChain : ∀ {l : List α}, (l.Pairwise fun a b => key a ≤ key b) →
    (l.IsChain fun a b => key a ≠ key b) → l.Pairwise fun a b => key a < key b
  | [], _, _ => .nil
  | [a], _, _ => List.pairwise_singleton _ a
  | a :: b :: l, hle, hne => by
      obtain ⟨ha, hrest⟩ := List.pairwise_cons.mp hle
      obtain ⟨hab, hchain⟩ := List.isChain_cons_cons.mp hne
      have hlt : key a < key b := lt_of_le_of_ne (ha b List.mem_cons_self) hab
      refine List.pairwise_cons.mpr ⟨fun c hc => ?_, pairwise_lt_of_isChain hrest hchain⟩
      rcases List.mem_cons.mp hc with rfl | hc
      · exact hlt
      · exact hlt.trans_le ((List.pairwise_cons.mp hrest).1 c hc)

/-- They are strictly increasing exactly when no key comes twice. -/
theorem pairwise_lt_mergeSort_iff (l : List α) :
    ((l.mergeSort fun a b => key a ≤ key b).Pairwise fun a b => key a < key b) ↔
      (l.map key).Nodup := by
  have hperm : ((l.mergeSort fun a b => key a ≤ key b).map key).Perm (l.map key) :=
    (List.mergeSort_perm l _).map key
  rw [← hperm.nodup_iff, List.Nodup, List.pairwise_map]
  constructor
  · exact List.Pairwise.imp fun {a b} hlt => ne_of_lt hlt
  · intro hne
    exact pairwise_lt_of_isChain (pairwise_mergeSort key l) hne.isChain

end MagnumOpus.SortedBy
