import Mathlib.Data.List.Basic
import Mathlib.Order.Monotone.Basic

/-!
# How far ahead a column looks

A column computed from a list of rows gives a value at every position.  It has *reach* `h` when
the value at `i` is decided by the rows up to `h i`: whatever list follows them, the value is the
same.  A column of reach `id` is causal.  Pointwise combination, earlier positions, filling
forward and trailing windows keep a monotone reach, so the reach of a table is that of the
columns it starts from.
-/

namespace MagnumOpus
namespace Reach

variable {α β γ δ : Type*}

/-- The value at `i` is decided by the rows up to `h i`. -/
def HasReach (h : ℕ → ℕ) (c : List α → ℕ → β) : Prop :=
  ∀ l l' i, l.take (h i + 1) = l'.take (h i + 1) → c l i = c l' i

/-- The last value at or before a position. -/
def ffill (c : List α → ℕ → Option β) (l : List α) : ℕ → Option β
  | 0 => c l 0
  | i + 1 => (c l (i + 1)).or (ffill c l i)

/-- The change since the position before; `first` stands at the start. -/
def diff (first : β → γ) (d : β → β → γ) (c : List α → ℕ → β) (l : List α) : ℕ → γ
  | 0 => first (c l 0)
  | i + 1 => d (c l i) (c l (i + 1))

/-- The `n` values up to a position. -/
def window (n : ℕ) (c : List α → ℕ → β) (l : List α) (i : ℕ) : List β :=
  (List.range n).map fun j => c l (i + 1 - n + j)

/-- A trailing window of `n` values under `g`; `short` where there are fewer. -/
def rolling (n : ℕ) (short : γ) (g : List β → γ) (c : List α → ℕ → β) (l : List α) (i : ℕ) : γ :=
  if n ≤ i + 1 then g (window n c l i) else short

/-! ### Agreement of prefixes -/

theorem take_eq_take_of_le {l l' : List α} {m n : ℕ} (hmn : m ≤ n)
    (h : l.take n = l'.take n) : l.take m = l'.take m := by
  have h' := congrArg (List.take m) h
  rwa [List.take_take, List.take_take, Nat.min_eq_left hmn] at h'

theorem getElem?_eq_of_take {l l' : List α} {i n : ℕ} (hin : i < n)
    (h : l.take n = l'.take n) : l[i]? = l'[i]? := by
  rw [← List.getElem?_take_of_lt hin, h, List.getElem?_take_of_lt hin]

/-- Two lists with a common prefix longer than one of them are equal. -/
theorem eq_of_take_of_length_lt {l l' : List α} {n : ℕ} (hn : l.length < n)
    (h : l.take n = l'.take n) : l = l' := by
  rw [List.take_of_length_le hn.le] at h
  have hlen : l.length = min n l'.length := by
    have h' := congrArg List.length h
    rwa [List.length_take] at h'
  rw [h, List.take_of_length_le (by omega)]

/-! ### Reach of combined columns -/

section columns

variable {h : ℕ → ℕ} {c : List α → ℕ → β}

theorem HasReach.mono {h' : ℕ → ℕ} (hh : ∀ i, h i ≤ h' i) (hc : HasReach h c) :
    HasReach h' c := by
  intro l l' i hl
  apply hc
  exact take_eq_take_of_le (by have := hh i; omega) hl

/-- The value at an earlier position is decided no later. -/
theorem HasReach.at_le (hmono : Monotone h) (hc : HasReach h c) {l l' : List α} {i j : ℕ}
    (hji : j ≤ i) (hl : l.take (h i + 1) = l'.take (h i + 1)) : c l j = c l' j := by
  apply hc
  exact take_eq_take_of_le (by have := hmono hji; omega) hl

/-- The rows themselves. -/
theorem hasReach_getElem? : HasReach id (fun (l : List α) i => l[i]?) := by
  intro l l' i hl
  exact getElem?_eq_of_take (Nat.lt_succ_self i) hl

theorem HasReach.map (g : β → γ) (hc : HasReach h c) : HasReach h (fun l i => g (c l i)) := by
  intro l l' i hl
  exact congrArg g (hc l l' i hl)

theorem HasReach.map₂ {d : List α → ℕ → γ} (g : β → γ → δ) (hc : HasReach h c)
    (hd : HasReach h d) : HasReach h (fun l i => g (c l i) (d l i)) := by
  intro l l' i hl
  exact congrArg₂ g (hc l l' i hl) (hd l l' i hl)

theorem HasReach.ffill {c : List α → ℕ → Option β} (hmono : Monotone h) (hc : HasReach h c) :
    HasReach h (ffill c) := by
  intro l l' i hl
  induction i with
  | zero => exact hc l l' 0 hl
  | succ i ih =>
      have hprev : h i ≤ h (i + 1) := hmono (Nat.le_succ i)
      have hrest := ih (take_eq_take_of_le (by omega) hl)
      exact congrArg₂ Option.or (hc l l' (i + 1) hl) hrest

theorem HasReach.diff (first : β → γ) (d : β → β → γ) (hmono : Monotone h) (hc : HasReach h c) :
    HasReach h (diff first d c) := by
  intro l l' i hl
  cases i with
  | zero => exact congrArg first (hc l l' 0 hl)
  | succ i => exact congrArg₂ d (hc.at_le hmono (Nat.le_succ i) hl) (hc l l' (i + 1) hl)

theorem HasReach.window (hmono : Monotone h) (hc : HasReach h c) {n i : ℕ} (hn : n ≤ i + 1)
    {l l' : List α} (hl : l.take (h i + 1) = l'.take (h i + 1)) :
    window n c l i = window n c l' i := by
  unfold Reach.window
  apply List.map_congr_left
  intro j hj
  rw [List.mem_range] at hj
  exact hc.at_le hmono (by omega) hl

theorem HasReach.rolling (n : ℕ) (short : γ) (g : List β → γ) (hmono : Monotone h)
    (hc : HasReach h c) : HasReach h (rolling n short g c) := by
  intro l l' i hl
  unfold Reach.rolling
  split_ifs with hn
  · rw [hc.window hmono hn hl]
  · rfl

/-- Once filled, a column stays filled. -/
theorem ffill_isSome_mono {c : List α → ℕ → Option β} {l : List α} {i j : ℕ} (hij : i ≤ j)
    (hi : (ffill c l i).isSome) : (ffill c l j).isSome := by
  induction j, hij using Nat.le_induction with
  | base => exact hi
  | succ j _ ih =>
      unfold Reach.ffill
      rw [Option.isSome_or, ih, Bool.or_true]

end columns

end Reach
end MagnumOpus
