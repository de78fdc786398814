import Mathlib.Algebra.BigOperators.Ring.Finset
import Mathlib.Data.List.Nodup
import Mathlib.Tactic.FieldSimp
import Mathlib.Tactic.IntervalCases
import MagnumOpus.Ml.Extractor

/-!
# What each feature column looks at

Every column but the smoothed ones and those made from them is causal; the smoothed columns look
two rows ahead, four at the start of the frame (`hasReach_smoothed`).  The two whole-column
fallbacks look at the whole frame.  Apart from the fallbacks a row of the result is therefore
settled two rows later (`featureRow_eq`).
-/

namespace MagnumOpus
namespace Ml

open Reach

section reach

variable {K : Type*}

/-! ### Causal columns -/

theorem hasReach_raw (f : Snapshot K → Option K) : HasReach id (raw f) :=
  hasReach_getElem?.map fun row : Option (Snapshot K) => row.bind f

theorem hasReach_bid : HasReach id (bid (K := K)) := (hasReach_raw _).ffill monotone_id

theorem hasReach_ask : HasReach id (ask (K := K)) := (hasReach_raw _).ffill monotone_id

variable [Field K]

theorem hasReach_filled (f : Snapshot K → Option K) : HasReach id (filled f) :=
  (hasReach_raw f).map fun x => x.getD 0

theorem hasReach_mid : HasReach id (mid (K := K)) :=
  hasReach_bid.map₂ (Option.map₂ fun b a => (b + a) / ((2 : ℕ) : K)) hasReach_ask

theorem hasReach_deltaMid : HasReach id (deltaMid (K := K)) :=
  hasReach_mid.diff _ _ monotone_id

theorem hasReach_depthImbalanceL1 : HasReach id (depthImbalanceL1 (K := K)) :=
  (hasReach_filled _).map₂ (imbalance _) (hasReach_filled _)

theorem hasReach_micropriceXHawkes : HasReach id (micropriceXHawkes (K := K)) :=
  (hasReach_filled _).map₂ (· * ·) (hasReach_filled _)

theorem hasReach_derivedCancelBias : HasReach id (derivedCancelBias (K := K)) :=
  (hasReach_filled _).map₂ (imbalance 1) (hasReach_filled _)

theorem fitAt_congr {xs xs' : List K} {s i : ℕ}
    (h : ∀ j < 5, xs[s + j]? = xs'[s + j]?) : fitAt xs s i = fitAt xs' s i := by
  unfold fitAt
  congr 1
  apply Finset.sum_congr rfl
  intro j hj
  rw [List.getD_eq_getElem?_getD, List.getD_eq_getElem?_getD, h j (Finset.mem_range.mp hj)]

variable [LinearOrder K]

theorem hasReach_netBuyFraction : HasReach id (netBuyFraction (K := K)) :=
  (hasReach_filled _).map₂ (fun vol bvol => if 0 < vol then bvol / vol else 1 / ((2 : ℕ) : K))
    (hasReach_filled _)

theorem hasReach_derivedMicroprice : HasReach id (derivedMicroprice (K := K)) := by
  intro l l' i hl
  unfold derivedMicroprice
  rw [hasReach_bid l l' i hl, hasReach_ask l l' i hl, hasReach_filled _ l l' i hl,
    hasReach_filled _ l l' i hl]

theorem hasReach_logRet (N : Numerics K) : HasReach id (logRet N) :=
  HasReach.diff _ _ monotone_id
    (hasReach_mid.map fun m => m.bind fun m => if 0 < m then some (N.log m) else none)

theorem hasReach_hurstColumn (N : Numerics K) (n : ℕ) : HasReach id (hurstColumn N n) :=
  (hasReach_logRet N).rolling n _ _ monotone_id

theorem hasReach_ouColumn (N : Numerics K) : HasReach id (ouColumn N) :=
  (hasReach_filled _).rolling 60 _ _ monotone_id

/-! ### Smoothed columns -/

/-- The last row the smoothed value at `i` looks at, in a frame that goes on. -/
def smoothReach (i : ℕ) : ℕ := max 4 (i + 2)

theorem smoothReach_mono : Monotone smoothReach := by
  intro i j hij
  unfold smoothReach
  omega

theorem le_smoothReach (i : ℕ) : id i ≤ smoothReach i := by
  unfold smoothReach
  rw [id]
  omega

theorem hasReach_smoothed {N : Numerics K} (hN : N.Documented) (f : Snapshot K → Option K) :
    HasReach smoothReach (smoothed N f) := by
  intro l l' i hl
  by_cases hlen : l.length < smoothReach i + 1
  · -- the frame ends within reach, and so it is the same frame
    rw [eq_of_take_of_length_lt hlen hl]
  · have hlen' : ¬ l'.length < smoothReach i + 1 := by
      intro h
      rw [eq_of_take_of_length_lt h hl.symm] at h
      exact hlen h
    have hreach : 4 ≤ smoothReach i ∧ i + 2 ≤ smoothReach i := by
      unfold smoothReach
      omega
    have hstart : windowStart l.length i = i - 2 := by
      unfold windowStart
      omega
    have hstart' : windowStart l'.length i = i - 2 := by
      unfold windowStart
      omega
    unfold smoothed
    rw [if_pos (by omega), if_pos (by omega), hN.savgol _ _ (by simp; omega) (by simp; omega),
      hN.savgol _ _ (by simp; omega) (by simp; omega), List.length_map, List.length_map, hstart,
      hstart']
    congr 1
    apply fitAt_congr
    intro j hj
    have hin : i - 2 + j < smoothReach i + 1 := by
      unfold smoothReach
      omega
    rw [List.getElem?_map, List.getElem?_map, getElem?_eq_of_take hin hl]

theorem hasReach_ofiXSpread {N : Numerics K} (hN : N.Documented) :
    HasReach smoothReach (ofiXSpread N) :=
  (hasReach_smoothed hN _).map₂ (Option.map₂ (· * ·)) (hasReach_smoothed hN _)

theorem hasReach_kyleColumn {N : Numerics K} (hN : N.Documented) :
    HasReach smoothReach (kyleColumn N) :=
  ((hasReach_deltaMid.mono le_smoothReach).map₂ Prod.mk (hasReach_smoothed hN _)).rolling 60 _ _
    smoothReach_mono

/-! ### Rows of the result -/

/-- A row of the result is settled two rows later, whatever follows, as long as the two
whole-column fallbacks are taken alike. -/
theorem featureRow_eq {N : Numerics K} (hN : N.Documented) {l l' : List (Snapshot K)} {i : ℕ}
    (hl : l.take (smoothReach i + 1) = l'.take (smoothReach i + 1))
    (hmicro : allMissing (·.micropriceMidDelta) l = allMissing (·.micropriceMidDelta) l')
    (hcancel : allMissing (·.cancelBias) l = allMissing (·.cancelBias) l') :
    featureRow N l i = featureRow N l' i := by
  have hid : l.take (id i + 1) = l'.take (id i + 1) :=
    take_eq_take_of_le (Nat.succ_le_succ (le_smoothReach i)) hl
  have hofi : ofiSg N l i = ofiSg N l' i := hasReach_smoothed hN _ l l' i hl
  have hspread : spreadSg N l i = spreadSg N l' i := hasReach_smoothed hN _ l l' i hl
  have hmmd : micropriceMidDelta l i = micropriceMidDelta l' i := by
    unfold micropriceMidDelta
    rw [hmicro, hasReach_derivedMicroprice l l' i hid, hasReach_raw _ l l' i hid]
  have hbias : cancelBias l i = cancelBias l' i := by
    unfold cancelBias
    rw [hcancel, hasReach_derivedCancelBias l l' i hid, hasReach_raw _ l l' i hid]
  unfold featureRow
  rw [getElem?_eq_of_take (Nat.lt_succ_self i) hid, hasReach_hurstColumn N 20 l l' i hid,
    hasReach_hurstColumn N 60 l l' i hid, hasReach_ouColumn N l l' i hid,
    hasReach_kyleColumn hN l l' i hl, hofi, hspread, hasReach_netBuyFraction l l' i hid,
    hasReach_depthImbalanceL1 l l' i hid, hasReach_ofiXSpread hN l l' i hl,
    hasReach_micropriceXHawkes l l' i hid, hmmd, hbias]

end reach

end Ml
end MagnumOpus
