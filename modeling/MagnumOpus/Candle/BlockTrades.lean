import MagnumOpus.Candle.FullConsumer
import MagnumOpus.Lib.BinaryRounding
import MagnumOpus.Lib.LastEntries
import MagnumOpus.Lib.OrderStatistics
import Mathlib.Algebra.Order.Floor.Div

/-! # The window of block trades

`blockwindow/window.go`: the sizes of the latest trades, and the 99th percentile of them, above
which a trade counts as a block trade.

* **Sizes.** Any type with a linear order.  The rank of the percentile is computed in floating point
  (`Window.threshold`), and is the exact one for every window that can be made (`rankIndex_eq`).
* **The sliding window.** `sizes_run`: the last sizes that were restored or added.  What is restored
  from the sizes of a window goes on as it does (`restore_sizes`).
* **The percentile.** `threshold_hasRank`, from which the share of the sizes above it
  (`countP_threshold`) and its monotonicity (`threshold_mono`) follow.
* **The consumer.** Its window is this one (`BlockWindow.threshold_toWindow`). -/

namespace MagnumOpus.Candle

open LastEntries OrderStatistics

namespace BlockTrades

variable {α : Type*}

structure Window (α : Type*) where
  sizes : List α
  windowSize : ℕ
  minSample : ℕ
deriving DecidableEq

/-- The most entries of eight bytes that `make` makes room for; for more it panics. -/
def maxCap : ℕ := 2 ^ 45

/-- `New`; `none` stands for a panic. -/
def new (windowSize minSample : ℤ) : Option (Window α) :=
  if windowSize < 1 then none
  else if minSample < 0 then none
  else if (maxCap : ℤ) < windowSize then none
  else some { sizes := [], windowSize := windowSize.toNat, minSample := minSample.toNat }

/-- The builtin `copy`: the first elements of `dst` become those of `src`. -/
def copy (dst src : List α) : List α := src.take dst.length ++ dst.drop src.length

namespace Window

def add (w : Window α) (size : α) : Window α :=
  let sizes :=
    if w.windowSize ≤ w.sizes.length then
      (copy w.sizes (w.sizes.drop 1)).take (w.sizes.length - 1)
    else w.sizes
  { w with sizes := sizes ++ [size] }

def restore (w : Window α) (sizes : List α) : Window α :=
  let sizes :=
    if w.windowSize < sizes.length then sizes.drop (sizes.length - w.windowSize) else sizes
  { w with sizes }

/-- The literal `0.99`. -/
def percentile : Binary64 := ⟨8917127262193582, 53⟩

/-- `int(math.Ceil(0.99*float64(n))) - 1`, kept within the indices of `n` entries. -/
def rankIndex (n : ℕ) : ℤ :=
  let idx : ℤ := (percentile.mul (.ofNat n)).ceil - 1
  let idx := if idx < 0 then 0 else idx
  if (n : ℤ) ≤ idx then n - 1 else idx

/-- The 99th percentile by the nearest rank, when there are enough samples. -/
def threshold [LinearOrder α] (w : Window α) : Option α :=
  if w.sizes.length = 0 then none
  else if w.sizes.length < w.minSample then none
  else (w.sizes.insertionSort (· ≤ ·))[(rankIndex w.sizes.length).toNat]?

/-- A call that changes the window. -/
inductive Call (α : Type*) where
  | add (size : α)
  | restore (sizes : List α)
deriving DecidableEq

def apply (w : Window α) : Call α → Window α
  | .add size => w.add size
  | .restore sizes => w.restore sizes

def run (w : Window α) (calls : List (Call α)) : Window α := calls.foldl apply w

/-- The list that was restored last, and what was added after it. -/
def history (h : List α) : List (Call α) → List α
  | [] => h
  | .add size :: calls => history (h ++ [size]) calls
  | .restore sizes :: calls => history sizes calls

/-- A window that `New` has made and that was used since. -/
structure Made (w : Window α) : Prop where
  pos : 1 ≤ w.windowSize
  le_maxCap : w.windowSize ≤ maxCap
  length_le : w.sizes.length ≤ w.windowSize

/-! ### Sizes -/

theorem eq_of_new {windowSize minSample : ℤ} {w : Window α}
    (h : new windowSize minSample = some w) :
    1 ≤ windowSize ∧ 0 ≤ minSample ∧ windowSize ≤ maxCap ∧
      w = { sizes := [], windowSize := windowSize.toNat, minSample := minSample.toNat } := by
  unfold new at h
  split at h
  · cases h
  · split at h
    · cases h
    · split at h
      · cases h
      · exact ⟨by omega, by omega, by omega, (Option.some.inj h).symm⟩

theorem made_of_new {windowSize minSample : ℤ} {w : Window α}
    (h : new windowSize minSample = some w) : w.Made := by
  obtain ⟨hpos, -, hmax, rfl⟩ := eq_of_new h
  exact ⟨by dsimp only; omega, by dsimp only; omega, Nat.zero_le _⟩

variable {w : Window α}

theorem copy_shift (xs : List α) : (copy xs (xs.drop 1)).take (xs.length - 1) = xs.drop 1 := by
  have hlen : (xs.drop 1).length = xs.length - 1 := List.length_drop
  rw [copy, List.take_of_length_le (by omega : (xs.drop 1).length ≤ xs.length), ← hlen,
    List.take_left]

theorem add_sizes (hw : w.Made) (size : α) :
    (w.add size).sizes = push w.windowSize w.sizes size := by
  have hpos := hw.pos
  have hle := hw.length_le
  rw [push, List.length_append, List.length_singleton, add, copy_shift]
  by_cases hfull : w.windowSize ≤ w.sizes.length
  · rw [if_pos hfull, if_pos (by omega), List.drop_append_of_le_length (by omega)]
  · rw [if_neg hfull, if_neg (by omega)]

theorem restore_sizes (w : Window α) (sizes : List α) :
    (w.restore sizes).sizes = sizes.rtake w.windowSize := by
  unfold restore List.rtake
  dsimp only
  split
  · rfl
  · rw [Nat.sub_eq_zero_of_le (by omega), List.drop_zero]

theorem add_of_sizes (hw : w.Made) {h : List α} (hsizes : w.sizes = h.rtake w.windowSize)
    (size : α) : (w.add size).sizes = (h ++ [size]).rtake w.windowSize := by
  rw [add_sizes hw, hsizes, push_rtake]

theorem Made.apply (hw : w.Made) (c : Call α) : (w.apply c).Made := by
  refine ⟨?_, ?_, ?_⟩
  · cases c <;> exact hw.pos
  · cases c <;> exact hw.le_maxCap
  · cases c with
    | add size =>
        have hrtake : (w.add size).sizes = (w.sizes ++ [size]).rtake w.windowSize :=
          add_of_sizes hw (rtake_of_length_le hw.length_le).symm size
        exact hrtake ▸ length_rtake_le _ _
    | restore sizes => exact restore_sizes w sizes ▸ length_rtake_le _ _

theorem Made.run (hw : w.Made) (calls : List (Call α)) : (w.run calls).Made := by
  induction calls generalizing w with
  | nil => exact hw
  | cons c calls ih => exact ih (hw.apply c)

theorem windowSize_run (w : Window α) (calls : List (Call α)) :
    (w.run calls).windowSize = w.windowSize ∧ (w.run calls).minSample = w.minSample := by
  induction calls generalizing w with
  | nil => exact ⟨rfl, rfl⟩
  | cons c calls ih =>
      have hstep : (w.apply c).windowSize = w.windowSize ∧ (w.apply c).minSample = w.minSample := by
        cases c <;> exact ⟨rfl, rfl⟩
      exact ⟨(ih (w.apply c)).1.trans hstep.1, (ih (w.apply c)).2.trans hstep.2⟩

theorem sizes_run (hw : w.Made) {h : List α} (hsizes : w.sizes = h.rtake w.windowSize)
    (calls : List (Call α)) : (w.run calls).sizes = (history h calls).rtake w.windowSize := by
  induction calls generalizing w h with
  | nil => exact hsizes
  | cons c calls ih =>
      cases c with
      | add size => exact ih (hw.apply (.add size)) (add_of_sizes hw hsizes size)
      | restore sizes => exact ih (hw.apply (.restore sizes)) (restore_sizes w sizes)

/-- A window that is restored from the sizes of another one of its capacity. -/
theorem restore_eq (hw : w.Made) {w' : Window α} (h : w'.windowSize = w.windowSize) :
    w'.restore w.sizes = { w with minSample := w'.minSample } := by
  have hsizes : (w'.restore w.sizes).sizes = w.sizes := by
    rw [restore_sizes, h, rtake_of_length_le hw.length_le]
  have hrest : w'.restore w.sizes = { w' with sizes := (w'.restore w.sizes).sizes } := rfl
  rw [hrest, hsizes, h]

/-! ### The rank -/

/-- The literal is the nearest number of 53 digits to 99/100: it is within half a unit of its last
digit. -/
theorem percentile_nearest : percentile.num < 2 ^ sigDigits ∧ 2 ^ 52 ≤ percentile.num ∧
    2 * (99 * 2 ^ percentile.scale - 100 * percentile.num) ≤ 100 ∧
    100 * percentile.num ≤ 99 * 2 ^ percentile.scale := by
  decide

/-- In floating point the rank is the exact one. -/
theorem ceil_percentile {n k : ℕ} (hn : n ≤ maxCap) (hlow : 100 * k < 99 * n)
    (hup : 99 * n ≤ 100 * (k + 1)) : (percentile.mul (.ofNat n)).ceil = k + 1 := by
  have hmax : maxCap = 2 ^ 45 := rfl
  have hdig : 2 ^ sigDigits = 2 ^ 53 := rfl
  rw [Binary64.ofNat_of_lt (by omega : n < 2 ^ sigDigits)]
  refine Binary64.ceil_mul_eq (l := (128 * k + 1) * 2 ^ 46) ⟨128 * k + 1, 46, by omega, rfl⟩
    ⟨k + 1, 53, by omega, rfl⟩ ?_ ?_ ?_
  · show k * 2 ^ 53 < _
    omega
  · show _ ≤ 8917127262193582 * n
    omega
  · show 8917127262193582 * n ≤ (k + 1) * 2 ^ 53
    omega

/-- The nearest rank of the 99th percentile of `n` entries. -/
def nearestRank (n : ℕ) : ℕ := 99 * n ⌈/⌉ 100

theorem nearestRank_eq (n : ℕ) : nearestRank n = (99 * n + 99) / 100 :=
  Nat.ceilDiv_eq_add_pred_div _ _

theorem rankIndex_eq {n : ℕ} (hpos : 0 < n) (hn : n ≤ maxCap) :
    (rankIndex n).toNat = nearestRank n - 1 := by
  obtain ⟨k, hk⟩ : ∃ k, nearestRank n = k + 1 := by
    rw [nearestRank_eq]
    exact Nat.exists_eq_add_of_le' (by omega)
  rw [hk]
  rw [nearestRank_eq] at hk
  have hceil : (percentile.mul (.ofNat n)).ceil = k + 1 :=
    ceil_percentile hn (by omega) (by omega)
  unfold rankIndex
  rw [hceil]
  dsimp only
  rw [if_neg (by omega), if_neg (by omega)]
  omega

/-! ### The percentile -/

variable [LinearOrder α] {t : α}

theorem threshold_eq (hw : w.Made) (hpos : w.sizes ≠ []) (hmin : w.minSample ≤ w.sizes.length) :
    w.threshold = (w.sizes.insertionSort (· ≤ ·))[nearestRank w.sizes.length - 1]? := by
  have hlen : 0 < w.sizes.length := List.length_pos_iff.mpr hpos
  rw [threshold, if_neg (by omega), if_neg (by omega),
    rankIndex_eq hlen (hw.length_le.trans hw.le_maxCap)]

theorem exists_threshold (hw : w.Made) (hpos : w.sizes ≠ [])
    (hmin : w.minSample ≤ w.sizes.length) : ∃ t, w.threshold = some t := by
  have hlen : 0 < w.sizes.length := List.length_pos_iff.mpr hpos
  rw [threshold_eq hw hpos hmin, nearestRank_eq]
  refine ⟨_, List.getElem?_eq_getElem ?_⟩
  rw [List.length_insertionSort]
  omega

theorem of_threshold (h : w.threshold = some t) :
    w.sizes ≠ [] ∧ w.minSample ≤ w.sizes.length := by
  unfold threshold at h
  split at h
  · cases h
  · split at h
    · cases h
    · next hzero hmin => exact ⟨fun hnil => hzero (by rw [hnil]; rfl), by omega⟩

theorem threshold_hasRank (hw : w.Made) (h : w.threshold = some t) :
    HasRank (nearestRank w.sizes.length - 1) w.sizes t := by
  obtain ⟨hpos, hmin⟩ := of_threshold h
  rw [threshold_eq hw hpos hmin] at h
  exact hasRank_insertionSort h

/-- At most one in a hundred is above it. -/
theorem countP_threshold (hw : w.Made) (h : w.threshold = some t) :
    100 * w.sizes.countP (fun x => decide (t < x)) ≤ w.sizes.length := by
  have hcount := (threshold_hasRank hw h).countP_lt
  rw [nearestRank_eq] at hcount
  omega

theorem threshold_mono (hw : w.Made) {l₁ l₂ : List α} {a b : α} (hsizes : w.sizes = l₁ ++ a :: l₂)
    (hab : a ≤ b) (h : w.threshold = some t) :
    ∃ t', ({ w with sizes := l₁ ++ b :: l₂ } : Window α).threshold = some t' ∧ t ≤ t' := by
  have hlen : (l₁ ++ b :: l₂).length = w.sizes.length := by
    rw [hsizes, List.length_append, List.length_append, List.length_cons, List.length_cons]
  have hw' : ({ w with sizes := l₁ ++ b :: l₂ } : Window α).Made :=
    ⟨hw.pos, hw.le_maxCap, hlen.trans_le hw.length_le⟩
  obtain ⟨t', ht'⟩ := exists_threshold hw' (by simp) ((of_threshold h).2.trans_eq hlen.symm)
  have hrank := threshold_hasRank hw' ht'
  rw [hlen] at hrank
  refine ⟨t', ht', (threshold_hasRank hw h).le_of_countP_le hrank fun c => ?_⟩
  rw [hsizes]
  exact countP_replace_le hab c

/-- **The window of block trades**: it slides, it goes on from its sizes, and its threshold is the
99th percentile. -/
theorem window_law {windowSize minSample : ℤ} (hnew : new windowSize minSample = some w)
    (calls : List (Call α)) :
    let v := w.run calls
    v.sizes = (history [] calls).rtake windowSize.toNat ∧
    (w.restore v.sizes = v ∧ ∀ later, (w.restore v.sizes).run later = v.run later) ∧
    (∀ minSample' w', new windowSize minSample' = some w' →
      w'.restore v.sizes = { v with minSample := w'.minSample }) ∧
    (v.sizes ≠ [] → minSample ≤ v.sizes.length → ∃ t, v.threshold = some t ∧
      (v.sizes.insertionSort (· ≤ ·))[nearestRank v.sizes.length - 1]? = some t ∧
      100 * v.sizes.countP (fun x => decide (t < x)) ≤ v.sizes.length ∧
      ∀ l₁ a l₂ b, v.sizes = l₁ ++ a :: l₂ → a ≤ b →
        ∃ t', ({ v with sizes := l₁ ++ b :: l₂ } : Window α).threshold = some t' ∧ t ≤ t') := by
  intro v
  obtain ⟨-, hmin0, -, hw⟩ := eq_of_new hnew
  have hmade := made_of_new hnew
  have hv : v.Made := hmade.run calls
  obtain ⟨hsize, hmin⟩ := windowSize_run w calls
  have hrestore : w.restore v.sizes = v := by
    rw [restore_eq hv hsize.symm, ← hmin]
  refine ⟨?_, ⟨hrestore, fun later => by rw [hrestore]⟩, fun minSample' w' hnew' => ?_,
    fun hpos hle => ?_⟩
  · have hsizes := sizes_run hmade (h := []) (by rw [hw, List.rtake_nil]) calls
    rwa [show w.windowSize = windowSize.toNat by rw [hw]] at hsizes
  · obtain ⟨-, -, -, hw'⟩ := eq_of_new hnew'
    refine restore_eq hv ?_
    rw [hsize, hw, hw']
  · have hlen : v.minSample ≤ v.sizes.length := by
      rw [hmin, hw]
      dsimp only
      omega
    obtain ⟨t, ht⟩ := exists_threshold hv hpos hlen
    exact ⟨t, ht, (threshold_eq hv hpos hlen).symm.trans ht, countP_threshold hv ht,
      fun l₁ a l₂ b hsizes hab => threshold_mono hv hsizes hab ht⟩

/-- The window slides, and its threshold is the greatest of three sizes. -/
theorem window_law_of_three :
    let v := (⟨[], 3, 1⟩ : Window ℕ).run [.restore [5, 1, 4, 2], .add 3]
    v.sizes = [4, 2, 3] ∧ v.threshold = some 4 := by
  intro v
  obtain ⟨hsizes, -, -, hthreshold⟩ :=
    window_law (show new 3 1 = some (⟨[], 3, 1⟩ : Window ℕ) from rfl)
      [.restore [5, 1, 4, 2], .add 3]
  have hthree : v.sizes = [4, 2, 3] := hsizes.trans (by decide)
  obtain ⟨t, ht, hrank, -⟩ := hthreshold (by rw [hthree]; decide) (by rw [hthree]; decide)
  refine ⟨hthree, ht.trans ?_⟩
  rw [hthree] at hrank
  exact hrank.symm.trans (by decide +kernel)

end Window

/-! ### Persistence -/

section Persistence

variable (format : α → String) (parse : String → Option α)

/-- The list that `persistBlockWindow` leaves in Redis. -/
def persisted (w : Window α) : List String := w.sizes.map format

/-- The window of a new process. -/
def restorePersisted (w : Window α) (raw : List String) : Window α :=
  if raw = [] then w else w.restore (raw.filterMap parse)

theorem restorePersisted_eq {w w' : Window α} (hw : w.Made) (hnew : w'.sizes = [])
    (hcap : w'.windowSize = w.windowSize) (hparse : ∀ x ∈ w.sizes, parse (format x) = some x) :
    restorePersisted parse w' (persisted format w) = { w with minSample := w'.minSample } := by
  have hread : (persisted format w).filterMap parse = w.sizes := by
    rw [persisted, List.filterMap_map]
    exact (List.filterMap_congr hparse).trans List.filterMap_some
  unfold restorePersisted
  split
  · next hnil =>
      have hempty : w.sizes = [] := List.map_eq_nil_iff.mp hnil
      have hrestore : w'.restore [] = { w' with sizes := [] } := by
        simp [Window.restore]
      rw [← Window.restore_eq hw hcap, hempty, hrestore, ← hnew]
  · rw [hread, Window.restore_eq hw hcap]

end Persistence

end BlockTrades

/-! ### The consumer -/

namespace BlockWindow

open BlockTrades

def toWindow (w : BlockWindow) : Window ℚ := ⟨w.sizes, w.windowSize, w.minSample⟩

theorem add_toWindow (w : BlockWindow) (size : ℚ) :
    (w.add size).toWindow = w.toWindow.add size := by
  rw [Window.add, Window.copy_shift]
  rfl

theorem threshold_toWindow {w : BlockWindow} (h : w.sizes.length ≤ maxCap) :
    w.toWindow.threshold = w.threshold := by
  have hsizes : w.toWindow.sizes = w.sizes := rfl
  have hmin : w.toWindow.minSample = w.minSample := rfl
  rw [Window.threshold, threshold, hsizes, hmin]
  rcases Nat.eq_zero_or_pos w.sizes.length with hzero | hpos
  · rw [if_pos hzero, List.length_eq_zero_iff.mp hzero]
    split <;> rfl
  · rw [if_neg hpos.ne', Window.rankIndex_eq hpos h, Window.nearestRank_eq]

end BlockWindow

end MagnumOpus.Candle
