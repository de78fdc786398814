import Mathlib.Algebra.BigOperators.Fin
import Mathlib.Algebra.Order.Group.Int
import Mathlib.Data.List.Count
import Mathlib.Data.List.MinMax

/-! # Residue classes of a list of integers

A list of integers falls into the classes of its entries modulo `m`.  In a window of `m` consecutive
integers a class has one member at most, so that of a class only the latest entry can be in a window
that no entry is beyond, and all its entries that are in the window are equal
(`countP_window`).  What is counted class by class is counted in the whole list
(`sum_countP_residue`). -/

namespace MagnumOpus.ResidueClasses

variable {m : ℕ}

/-- The entries that leave the remainder `i`. -/
def residue (m : ℕ) (i : Fin m) (hs : List ℤ) : List ℤ := hs.filter fun h => h % m = i

/-- The latest entry, or zero. -/
def latest (hs : List ℤ) : ℤ := hs.foldr max 0

@[simp] theorem latest_nil : latest [] = 0 := rfl

@[simp] theorem latest_cons (h : ℤ) (hs : List ℤ) : latest (h :: hs) = max h (latest hs) := rfl

theorem le_latest {h : ℤ} : ∀ {hs : List ℤ}, h ∈ hs → h ≤ latest hs
  | a :: hs, hmem => by
      rcases List.mem_cons.mp hmem with rfl | hmem
      · exact le_max_left _ _
      · exact (le_latest hmem).trans (le_max_right _ _)

theorem latest_mem : ∀ {hs : List ℤ}, latest hs ≠ 0 → latest hs ∈ hs
  | [], hne => absurd rfl hne
  | h :: hs, hne => by
      rw [latest_cons] at hne ⊢
      rcases max_choice h (latest hs) with hmax | hmax
      · rw [hmax]
        exact List.mem_cons_self
      · rw [hmax] at hne ⊢
        exact List.mem_cons_of_mem h (latest_mem hne)

theorem latest_perm {hs hs' : List ℤ} (h : hs.Perm hs') : latest hs = latest hs' := by
  induction h with
  | nil => rfl
  | cons a _ ih => rw [latest_cons, latest_cons, ih]
  | swap a b hs => simp only [latest_cons, max_left_comm]
  | trans _ _ ih ih' => exact ih.trans ih'

@[simp] theorem residue_nil (i : Fin m) : residue m i [] = [] := rfl

theorem residue_cons (i : Fin m) (h : ℤ) (hs : List ℤ) :
    residue m i (h :: hs) = if h % m = i then h :: residue m i hs else residue m i hs := by
  simp only [residue, List.filter_cons, decide_eq_true_eq]

theorem mem_residue {i : Fin m} {hs : List ℤ} {h : ℤ} :
    h ∈ residue m i hs ↔ h ∈ hs ∧ h % m = i := by
  rw [residue, List.mem_filter, decide_eq_true_eq]

/-- Two members of a class that are less than `m` apart are equal. -/
theorem eq_of_residue {i : Fin m} {hs : List ℤ} {a b : ℤ} (ha : a ∈ residue m i hs)
    (hb : b ∈ residue m i hs) (hle : b ≤ a) (hlt : a < b + m) : a = b := by
  have hmod : a % m = b % m := (mem_residue.mp ha).2.trans (mem_residue.mp hb).2.symm
  have hdvd : (m : ℤ) ∣ a - b :=
    Int.dvd_of_emod_eq_zero (Int.emod_eq_emod_iff_emod_sub_eq_zero.mp hmod)
  have hzero : a - b = 0 := Int.eq_zero_of_dvd_of_nonneg_of_lt (by omega) (by omega) hdvd
  omega

/-- In a window that no entry is beyond, a class has its latest entry or none. -/
theorem countP_window {i : Fin m} {hs : List ℤ} {c : ℤ} (hpos : ∀ h ∈ hs, 0 ≤ h)
    (hlt : ∀ h ∈ hs, h < c + m) :
    (residue m i hs).countP (fun h => decide (c ≤ h)) =
      if c ≤ latest (residue m i hs) then (residue m i hs).count (latest (residue m i hs))
      else 0 := by
  split
  case isTrue hc =>
    refine List.countP_congr fun h hmem => ?_
    rw [decide_eq_true_eq, beq_iff_eq]
    refine ⟨fun hch => ?_, fun heq => heq ▸ hc⟩
    have hle := le_latest hmem
    by_cases hzero : latest (residue m i hs) = 0
    · have h0 := hpos h (mem_residue.mp hmem).1
      omega
    · have hlast := latest_mem hzero
      have hltm := hlt _ (mem_residue.mp hlast).1
      exact (eq_of_residue hlast hmem hle (by omega)).symm
  case isFalse hc =>
    refine List.countP_eq_zero.mpr fun h hmem => ?_
    have hle := le_latest hmem
    rw [decide_eq_true_eq]
    omega

/-- The remainder, as the number of a class. -/
def residueIndex (m : ℕ) [NeZero m] (h : ℤ) : Fin m := Fin.ofNat m (h % m).toNat

theorem residueIndex_eq_iff [NeZero m] {h : ℤ} {i : Fin m} : residueIndex m h = i ↔ h % m = i := by
  have hm : (0 : ℤ) < m := Int.natCast_pos.mpr (Nat.pos_of_neZero m)
  have hnonneg := Int.emod_nonneg h hm.ne'
  have hlt := Int.emod_lt_of_pos h hm
  rw [residueIndex, Fin.ext_iff, Fin.val_ofNat, Nat.mod_eq_of_lt (by omega)]
  omega

/-- Counting class by class counts the list. -/
theorem sum_countP_residue [NeZero m] (p : ℤ → Bool) (hs : List ℤ) :
    ∑ i : Fin m, (residue m i hs).countP p = hs.countP p := by
  induction hs with
  | nil => simp
  | cons h hs ih =>
      have hone : ∀ i : Fin m, (residue m i (h :: hs)).countP p =
          (residue m i hs).countP p +
            if residueIndex m h = i then (if p h then 1 else 0) else 0 := by
        intro i
        rw [residue_cons]
        by_cases hi : h % m = i
        · rw [if_pos hi, if_pos (residueIndex_eq_iff.mpr hi), List.countP_cons]
        · rw [if_neg hi, if_neg (mt residueIndex_eq_iff.mp hi), Nat.add_zero]
      simp only [hone, Finset.sum_add_distrib, ih, Finset.sum_ite_eq, Finset.mem_univ, if_true,
        List.countP_cons]

end MagnumOpus.ResidueClasses
