import Mathlib.Analysis.SpecialFunctions.Log.Basic
import MagnumOpus.Ml.FeatureReach

/-!
# Features are not causal

Extraction returns a frame or raises: a Kyle window whose usable smoothed OFI values are all the
same aborts the day.  On a shared prefix that does not abort by itself, two continuations that
differ in the first OFI value after the prefix give different `ofi_sg` on its last row, because
the smoothing window is centred.  So no row at all can be promised: the features of a prefix are
settled exactly when it is empty or aborts (`causalAt_iff`).
-/

namespace MagnumOpus
namespace Ml

open Reach

section frames

variable {K : Type*}

/-! ### Kyle windows -/

/-- Ten usable pairs of sixty are not all among the last nine. -/
theorem exists_pair_of_length {pair : ℕ → Option K × Option K} {start : ℕ}
    (h : 10 ≤ (finitePairs ((List.range 60).map fun j => pair (start + j))).length) :
    ∃ j < 51, (pair (start + j)).1.isSome := by
  by_contra hnone
  have hsplit : List.range 60 = List.range 51 ++ (List.range 9).map (51 + ·) := by
    rw [← List.range_add]
  have hfirst : finitePairs ((List.range 51).map fun j => pair (start + j)) = [] := by
    unfold finitePairs
    rw [List.filterMap_eq_nil_iff]
    intro p hp
    obtain ⟨j, hj, rfl⟩ := List.mem_map.mp hp
    cases hd : (pair (start + j)).1 with
    | none => rfl
    | some d => exact absurd ⟨j, List.mem_range.mp hj, by rw [hd]; rfl⟩ hnone
  have hlast : (finitePairs (((List.range 9).map (51 + ·)).map fun j =>
      pair (start + j))).length ≤ 9 := by
    unfold finitePairs
    refine le_trans (List.length_filterMap_le _ _) ?_
    simp
  rw [hsplit, List.map_append] at h
  unfold finitePairs at h hfirst hlast
  rw [List.filterMap_append, hfirst, List.nil_append] at h
  omega

theorem mem_finitePairs {pair : ℕ → Option K × Option K} {start j : ℕ} {d o : K} (hj : j < 60)
    (h : pair (start + j) = (some d, some o)) :
    o ∈ (finitePairs ((List.range 60).map fun j => pair (start + j))).map Prod.snd := by
  rw [List.mem_map]
  refine ⟨(d, o), ?_, rfl⟩
  unfold finitePairs
  rw [List.mem_filterMap]
  exact ⟨_, List.mem_map.mpr ⟨j, List.mem_range.mpr hj, rfl⟩, by rw [h]; rfl⟩

variable [Field K]

theorem mid_isSome_mono {rows : List (Snapshot K)} {i j : ℕ} (hij : i ≤ j)
    (h : (mid rows i).isSome) : (mid rows j).isSome := by
  obtain ⟨m, hm⟩ := Option.isSome_iff_exists.mp h
  obtain ⟨b, a, hb, ha, -⟩ := Option.map₂_eq_some_iff.mp hm
  have hb' := ffill_isSome_mono hij (Option.isSome_iff_exists.mpr ⟨b, hb⟩)
  have ha' := ffill_isSome_mono hij (Option.isSome_iff_exists.mpr ⟨a, ha⟩)
  obtain ⟨b', hb'⟩ := Option.isSome_iff_exists.mp hb'
  obtain ⟨a', ha'⟩ := Option.isSome_iff_exists.mp ha'
  exact Option.isSome_iff_exists.mpr
    ⟨_, Option.map₂_eq_some_iff.mpr ⟨b', a', hb', ha', rfl⟩⟩

theorem deltaMid_isSome_mono {rows : List (Snapshot K)} {i j : ℕ} (hij : i < j)
    (h : (deltaMid rows i).isSome) : (deltaMid rows j).isSome := by
  have hi : (mid rows i).isSome := by
    obtain ⟨d, hd⟩ := Option.isSome_iff_exists.mp h
    cases i with
    | zero =>
        obtain ⟨m, _, hm, -⟩ := Option.map₂_eq_some_iff.mp hd
        exact Option.isSome_iff_exists.mpr ⟨m, hm⟩
    | succ i =>
        obtain ⟨_, m, -, hm, -⟩ := Option.map₂_eq_some_iff.mp hd
        exact Option.isSome_iff_exists.mpr ⟨m, hm⟩
  obtain ⟨k, rfl⟩ : ∃ k, j = k + 1 := ⟨j - 1, by omega⟩
  obtain ⟨m, hm⟩ := Option.isSome_iff_exists.mp (mid_isSome_mono (by omega : i ≤ k) hi)
  obtain ⟨m', hm'⟩ := Option.isSome_iff_exists.mp (mid_isSome_mono (by omega : i ≤ k + 1) hi)
  exact Option.isSome_iff_exists.mpr
    ⟨_, Option.map₂_eq_some_iff.mpr ⟨m, m', hm, hm', rfl⟩⟩

/-! ### Continuations of a prefix -/

/-- A row that holds an OFI value and nothing else. -/
def ofiRow (a : K) : Snapshot K :=
  ⟨none, none, some a, none, none, none, none, none, none, none, none, none, none⟩

/-- The prefix, a row with OFI value `a`, and three rows more. -/
def continued (P : List (Snapshot K)) (a : K) : List (Snapshot K) :=
  P ++ [ofiRow a, ofiRow 0, ofiRow 0, ofiRow 0]

@[simp] theorem continued_length (P : List (Snapshot K)) (a : K) :
    (continued P a).length = P.length + 4 := by
  simp [continued]

theorem continued_take (P : List (Snapshot K)) (a : K) {n : ℕ} (hn : n ≤ P.length) :
    (continued P a).take n = P.take n := List.take_append_of_le_length hn

theorem continued_getElem?_of_ne (P : List (Snapshot K)) (a a' : K) {i : ℕ} (hi : i ≠ P.length) :
    (continued P a)[i]? = (continued P a')[i]? := by
  unfold continued
  rcases Nat.lt_or_gt_of_ne hi with hlt | hgt
  · rw [List.getElem?_append_left hlt, List.getElem?_append_left hlt]
  · rw [List.getElem?_append_right hgt.le, List.getElem?_append_right hgt.le]
    obtain ⟨m, hm⟩ : ∃ m, i - P.length = m + 1 := ⟨i - P.length - 1, by omega⟩
    rw [hm, List.getElem?_cons_succ, List.getElem?_cons_succ]

theorem continued_getElem?_length (P : List (Snapshot K)) (a : K) :
    (continued P a)[P.length]? = some (ofiRow a) := by
  unfold continued
  rw [List.getElem?_append_right le_rfl, Nat.sub_self]
  rfl

end frames

section extraction

variable {K : Type*} [Field K] [LinearOrder K]

/-- The features of the rows of `P` are the same whatever follows them. -/
def CausalAt (N : Numerics K) (P : List (Snapshot K)) : Prop :=
  ∀ rest rest' out out', addRollingFeatures N (P ++ rest) = some out →
    addRollingFeatures N (P ++ rest') = some out' → out.take P.length = out'.take P.length

/-- A Kyle window that the rows of `P` decide raises. -/
def Aborts (N : Numerics K) (P : List (Snapshot K)) : Prop :=
  ∃ i, i + 2 < P.length ∧ kyleColumn N P i = none

/-! ### When extraction returns -/

theorem mapM_eq_some_iff {α β : Type*} {f : α → Option β} {l : List α} {out : List β} :
    l.mapM f = some out ↔ l.map f = out.map some := by
  induction l generalizing out with
  | nil =>
      constructor
      · intro h
        cases h
        rfl
      · intro h
        rw [List.map_nil, eq_comm, List.map_eq_nil_iff] at h
        rw [h]
        rfl
  | cons a l ih =>
      rw [List.mapM_cons]
      constructor
      · intro h
        obtain ⟨b, hb, h⟩ := Option.bind_eq_some_iff.mp h
        obtain ⟨bs, hbs, h⟩ := Option.bind_eq_some_iff.mp h
        cases h
        rw [List.map_cons, List.map_cons, hb, ih.mp hbs]
      · intro h
        cases out with
        | nil => simp at h
        | cons b bs =>
            rw [List.map_cons, List.map_cons, List.cons.injEq] at h
            rw [h.1, ih.mpr h.2]
            rfl

theorem addRollingFeatures_getElem? {N : Numerics K} {rows : List (Snapshot K)}
    {out : List (FeatureRow K)} (h : addRollingFeatures N rows = some out) {i : ℕ}
    (hi : i < rows.length) : out[i]? = featureRow N rows i := by
  have hmap := mapM_eq_some_iff.mp h
  have hget := congrArg (fun l => l[i]?) hmap
  simp only [List.getElem?_map, List.getElem?_range hi, Option.map_some] at hget
  cases hout : out[i]? with
  | none => rw [hout] at hget; cases hget
  | some r => rw [hout] at hget; exact (Option.some.inj hget).symm

theorem addRollingFeatures_eq_some {N : Numerics K} {rows : List (Snapshot K)}
    (h : ∀ i < rows.length, (featureRow N rows i).isSome) :
    ∃ out, addRollingFeatures N rows = some out := by
  refine ⟨(List.range rows.length).filterMap (featureRow N rows), mapM_eq_some_iff.mpr ?_⟩
  have hall : ∀ l : List ℕ, (∀ i ∈ l, (featureRow N rows i).isSome) →
      l.map (featureRow N rows) = (l.filterMap (featureRow N rows)).map some := by
    intro l hl
    induction l with
    | nil => rfl
    | cons i l ih =>
        obtain ⟨r, hr⟩ := Option.isSome_iff_exists.mp (hl i List.mem_cons_self)
        rw [List.map_cons, List.filterMap_cons_some hr, List.map_cons, hr,
          ih fun j hj => hl j (List.mem_cons_of_mem _ hj)]
  exact hall _ fun i hi => h i (List.mem_range.mp hi)

theorem featureRow_isSome {N : Numerics K} {rows : List (Snapshot K)} {i : ℕ}
    (hi : i < rows.length) (h20 : (hurstColumn N 20 rows i).isSome)
    (h60 : (hurstColumn N 60 rows i).isSome) (hou : (ouColumn N rows i).isSome)
    (hkyle : (kyleColumn N rows i).isSome) : (featureRow N rows i).isSome := by
  obtain ⟨a, ha⟩ := Option.isSome_iff_exists.mp h20
  obtain ⟨b, hb⟩ := Option.isSome_iff_exists.mp h60
  obtain ⟨c, hc⟩ := Option.isSome_iff_exists.mp hou
  obtain ⟨d, hd⟩ := Option.isSome_iff_exists.mp hkyle
  simp [featureRow, List.getElem?_eq_getElem hi, ha, hb, hc, hd]

theorem kyleColumn_of_featureRow {N : Numerics K} {rows : List (Snapshot K)} {i : ℕ}
    (h : kyleColumn N rows i = none) : featureRow N rows i = none := by
  unfold featureRow
  simp [h]

theorem ofiSg_of_featureRow {N : Numerics K} {rows : List (Snapshot K)} {i : ℕ}
    {r : FeatureRow K} (h : featureRow N rows i = some r) : r.ofiSg = ofiSg N rows i := by
  unfold featureRow at h
  simp only [Option.bind_eq_bind, Option.bind_eq_some_iff, Option.some.injEq] at h
  obtain ⟨_, -, _, -, _, -, _, -, _, -, rfl⟩ := h
  rfl

/-! ### Regressions that cannot raise -/

omit [Field K] in
theorem regress_isSome {N : Numerics K} {xs ys : List K} {x x' : K} (hx : x ∈ xs) (hx' : x' ∈ xs)
    (hne : x ≠ x') : (regress N xs ys).isSome := by
  unfold regress
  rw [if_neg]
  · rfl
  · intro h
    exact hne (h x hx x' hx')

omit [Field K] in
theorem regress_isSome_of_nodup {N : Numerics K} {xs ys : List K} (hxs : xs.Nodup)
    (hlen : 2 ≤ xs.length) : (regress N xs ys).isSome := by
  refine regress_isSome (List.getElem_mem (by omega : 0 < xs.length))
    (List.getElem_mem (by omega : 1 < xs.length)) ?_
  intro h
  have := (List.Nodup.getElem_inj_iff hxs).mp h
  omega

theorem rolling_isSome {α β γ : Type*} {n : ℕ} {g : List β → Option γ} {c : List α → ℕ → β}
    {l : List α} {i : ℕ} (h : n ≤ i + 1 → (g (window n c l i)).isSome) :
    (rolling n (some none) (fun w => (g w).map some) c l i).isSome := by
  unfold rolling
  split_ifs with hn
  · rw [Option.isSome_map]
    exact h hn
  · rfl

theorem filterMap_map_sublist {α β γ : Type*} {f : α → Option β} {g : β → γ} {k : α → γ}
    (h : ∀ a b, f a = some b → g b = k a) (l : List α) :
    ((l.filterMap f).map g).Sublist (l.map k) := by
  induction l with
  | nil => exact List.Sublist.slnil
  | cons a l ih =>
      cases hf : f a with
      | none =>
          rw [List.filterMap_cons_none hf, List.map_cons]
          exact ih.cons _
      | some b =>
          rw [List.filterMap_cons_some hf, List.map_cons, List.map_cons, h a b hf]
          exact ih.cons_cons _

theorem hurstPoint_fst {N : Numerics K} {series : List K} {lag : ℕ} {p : K × K}
    (h : hurstPoint N series lag = some p) : p.1 = N.log lag := by
  unfold hurstPoint at h
  split_ifs at h
  simp only at h
  split_ifs at h
  cases h
  rfl

omit [Field K] in
theorem foldl_max_of_const {c : K} {xs : List K} (h : ∀ x ∈ xs, x = c) : xs.foldl max c = c := by
  induction xs with
  | nil => rfl
  | cons x xs ih =>
      rw [List.foldl_cons, h x List.mem_cons_self, max_self]
      exact ih fun y hy => h y (List.mem_cons_of_mem _ hy)

omit [Field K] in
theorem foldl_min_of_const {c : K} {xs : List K} (h : ∀ x ∈ xs, x = c) : xs.foldl min c = c := by
  induction xs with
  | nil => rfl
  | cons x xs ih =>
      rw [List.foldl_cons, h x List.mem_cons_self, min_self]
      exact ih fun y hy => h y (List.mem_cons_of_mem _ hy)

theorem maxOf_sub_minOf_of_const {xs : List K} (h : ∀ x ∈ xs, ∀ x' ∈ xs, x = x') :
    maxOf xs - minOf xs = 0 := by
  cases xs with
  | nil => exact sub_self _
  | cons x xs =>
      have hx : ∀ y ∈ x :: xs, y = x := fun y hy => h y hy x List.mem_cons_self
      unfold maxOf minOf
      rw [List.headD_cons, foldl_max_of_const hx, foldl_min_of_const hx, sub_self]

/-! ### Windows that raise -/

theorem smoothed_isSome {N : Numerics K} (hN : N.Documented) (f : Snapshot K → Option K)
    {rows : List (Snapshot K)} (h5 : 5 ≤ rows.length) {i : ℕ} (hi : i < rows.length) :
    (smoothed N f rows i).isSome := by
  unfold smoothed
  rw [if_pos h5, hN.savgol _ _ (by simpa using h5) (by simpa using hi)]
  rfl

/-- A window that holds two rows with different smoothed values, both past the first nine rows
of any usable stretch, does not raise. -/
theorem kyleColumn_isSome {N : Numerics K} (hN : N.Documented) {rows : List (Snapshot K)}
    {i p : ℕ} (hi : i < rows.length) (hlow : i ≤ p + 8) (hhigh : p + 1 ≤ i)
    (hne : ofiSg N rows p ≠ ofiSg N rows (p + 1)) : (kyleColumn N rows i).isSome := by
  apply rolling_isSome
  intro hfull
  unfold kyleLambda
  simp only
  split_ifs with hfew
  · rfl
  · have hwindow : window 60 (kylePair N) rows i
        = (List.range 60).map fun j => kylePair N rows (i + 1 - 60 + j) := rfl
    rw [hwindow] at hfew ⊢
    obtain ⟨j, hj, hdelta⟩ := exists_pair_of_length (not_lt.mp hfew)
    obtain ⟨d, hd⟩ := Option.isSome_iff_exists.mp
      (deltaMid_isSome_mono (by omega : i + 1 - 60 + j < p) hdelta)
    obtain ⟨d', hd'⟩ := Option.isSome_iff_exists.mp
      (deltaMid_isSome_mono (by omega : i + 1 - 60 + j < p + 1) hdelta)
    obtain ⟨o, ho⟩ := Option.isSome_iff_exists.mp
      (smoothed_isSome hN (·.ofiL1) (by omega) (by omega : p < rows.length))
    obtain ⟨o', ho'⟩ := Option.isSome_iff_exists.mp
      (smoothed_isSome hN (·.ofiL1) (by omega) (by omega : p + 1 < rows.length))
    have hp : kylePair N rows (i + 1 - 60 + (p - (i + 1 - 60))) = (some d, some o) := by
      have hat : i + 1 - 60 + (p - (i + 1 - 60)) = p := by omega
      rw [hat]
      exact Prod.ext hd ho
    have hp' : kylePair N rows (i + 1 - 60 + (p + 1 - (i + 1 - 60))) = (some d', some o') := by
      have hat : i + 1 - 60 + (p + 1 - (i + 1 - 60)) = p + 1 := by omega
      rw [hat]
      exact Prod.ext hd' ho'
    refine regress_isSome (mem_finitePairs (by omega) hp) (mem_finitePairs (by omega) hp') ?_
    rintro rfl
    exact hne (ho.trans ho'.symm)

/-- A Kyle window that `P` decides is the same in every frame that begins with `P`. -/
theorem kyleColumn_append {N : Numerics K} (hN : N.Documented) {P : List (Snapshot K)} {i : ℕ}
    (hi : i + 2 < P.length) (rest : List (Snapshot K)) :
    kyleColumn N (P ++ rest) i = kyleColumn N P i := by
  by_cases hfull : 60 ≤ i + 1
  · apply hasReach_kyleColumn hN
    have hreach : smoothReach i + 1 ≤ P.length := by
      unfold smoothReach
      omega
    exact List.take_append_of_le_length hreach
  · unfold kyleColumn rolling
    rw [if_neg hfull, if_neg hfull]

theorem addRollingFeatures_of_aborts {N : Numerics K} (hN : N.Documented)
    {P : List (Snapshot K)} (h : Aborts N P) (rest : List (Snapshot K)) :
    addRollingFeatures N (P ++ rest) = none := by
  obtain ⟨i, hi, hkyle⟩ := h
  rw [← kyleColumn_append hN hi rest] at hkyle
  cases hout : addRollingFeatures N (P ++ rest) with
  | none => rfl
  | some out =>
      exfalso
      have hlen : i < (P ++ rest).length := by
        rw [List.length_append]
        omega
      have hrow := addRollingFeatures_getElem? hout hlen
      rw [kyleColumn_of_featureRow hkyle, List.getElem?_eq_none_iff] at hrow
      have hmap := congrArg List.length (mapM_eq_some_iff.mp hout)
      rw [List.length_map, List.length_range, List.length_map] at hmap
      omega

/-! ### What two features of one row share -/

theorem CausalAt.ofiSg_eq {N : Numerics K} {P rest rest' : List (Snapshot K)}
    (h : CausalAt N P) {out out' : List (FeatureRow K)}
    (hout : addRollingFeatures N (P ++ rest) = some out)
    (hout' : addRollingFeatures N (P ++ rest') = some out') {i : ℕ} (hi : i < P.length) :
    ofiSg N (P ++ rest) i = ofiSg N (P ++ rest') i := by
  have hsame : out[i]? = out'[i]? := getElem?_eq_of_take hi (h _ _ _ _ hout hout')
  have hrow := addRollingFeatures_getElem? hout (by rw [List.length_append]; omega : i < _)
  have hrow' := addRollingFeatures_getElem? hout' (by rw [List.length_append]; omega : i < _)
  have hlen : i < out.length := by
    have hmap := congrArg List.length (mapM_eq_some_iff.mp hout)
    rw [List.length_map, List.length_range, List.length_map, List.length_append] at hmap
    omega
  have hr := List.getElem?_eq_getElem hlen
  rw [← ofiSg_of_featureRow (hrow.symm.trans hr),
    ← ofiSg_of_featureRow (hrow'.symm.trans (hsame.symm.trans hr))]

/-- What does hold: rows are settled once two more have come, five at the start, as long as the
whole-column fallbacks are taken alike. -/
theorem take_eq_of_two_more {N : Numerics K} (hN : N.Documented) {l l' : List (Snapshot K)}
    {t : ℕ} (ht : t ≤ l.length) (ht' : t ≤ l'.length)
    (hl : l.take (max 5 (t + 2)) = l'.take (max 5 (t + 2)))
    (hmicro : allMissing (·.micropriceMidDelta) l = allMissing (·.micropriceMidDelta) l')
    (hcancel : allMissing (·.cancelBias) l = allMissing (·.cancelBias) l')
    {out out' : List (FeatureRow K)} (hout : addRollingFeatures N l = some out)
    (hout' : addRollingFeatures N l' = some out') : out.take t = out'.take t := by
  apply List.ext_getElem?
  intro i
  by_cases hi : i < t
  · rw [List.getElem?_take_of_lt hi, List.getElem?_take_of_lt hi,
      addRollingFeatures_getElem? hout (by omega), addRollingFeatures_getElem? hout' (by omega)]
    refine featureRow_eq hN (take_eq_take_of_le ?_ hl) hmicro hcancel
    unfold smoothReach
    omega
  · rw [List.getElem?_take_eq_none (by omega), List.getElem?_take_eq_none (by omega)]

/-- The microprice fallback is settled by the whole day: one later row with a value takes the
derived numbers of the rows before it away. -/
theorem micropriceMidDelta_of_later {P : List (Snapshot K)} {row : Snapshot K} {i : ℕ}
    (hP : allMissing (·.micropriceMidDelta) P = true) (hi : i < P.length)
    (hrow : row.micropriceMidDelta.isSome) :
    (micropriceMidDelta P i).isSome ∧ micropriceMidDelta (P ++ [row]) i = none := by
  constructor
  · unfold micropriceMidDelta
    rw [if_pos hP]
    rfl
  · have hsome : allMissing (·.micropriceMidDelta) (P ++ [row]) = false := by
      unfold allMissing
      rw [List.all_append, List.all_cons, Option.isNone_eq_false_iff.mpr hrow]
      simp
    unfold allMissing at hP
    rw [List.all_eq_true] at hP
    have hnone := hP P[i] (List.getElem_mem hi)
    unfold micropriceMidDelta raw
    rw [hsome, if_neg Bool.false_ne_true, List.getElem?_append_left hi,
      List.getElem?_eq_getElem hi]
    exact Option.isNone_iff_eq_none.mp hnone

end extraction

section returns

variable {K : Type*} [Field K] [LinearOrder K] [IsStrictOrderedRing K]

/-- The lags of a window are different, and so are their logarithms. -/
theorem hurst_isSome {N : Numerics K} (hN : N.Documented) {series : List K}
    (hlags : (hurstLags series.length).Nodup) (hpos : ∀ lag ∈ hurstLags series.length, 0 < lag) :
    (hurst N series).isSome := by
  unfold hurst
  split_ifs with hlen
  · rfl
  · simp only
    split_ifs with hpoints
    · rfl
    · rw [Option.isSome_map]
      apply regress_isSome_of_nodup
      · have hsub : (((hurstLags series.length).filterMap (hurstPoint N series)).map
            Prod.fst).Sublist ((hurstLags series.length).map fun lag : ℕ => N.log lag) :=
          filterMap_map_sublist (fun _ _ => hurstPoint_fst) _
        refine hsub.nodup (hlags.map_on ?_)
        intro a ha b hb hab
        have ha' : (0 : K) < a := by exact_mod_cast hpos a ha
        have hb' : (0 : K) < b := by exact_mod_cast hpos b hb
        exact_mod_cast hN.log_inj a b ha' hb' hab
      · rw [List.length_map]
        omega

theorem window_length {α β : Type*} (n : ℕ) (c : List α → ℕ → β) (l : List α) (i : ℕ) :
    (window n c l i).length = n := by
  simp [window]

theorem hurstColumn_isSome {N : Numerics K} (hN : N.Documented) {n : ℕ}
    (hlags : (hurstLags n).Nodup) (hpos : ∀ lag ∈ hurstLags n, 0 < lag)
    (rows : List (Snapshot K)) (i : ℕ) : (hurstColumn N n rows i).isSome := by
  apply rolling_isSome
  intro _
  apply hurst_isSome hN
  · rwa [window_length]
  · rwa [window_length]

/-- The half-life regression is guarded against identical values. -/
theorem ouHalflife_isSome (N : Numerics K) (series : List K) : (ouHalflife N series).isSome := by
  unfold ouHalflife
  split_ifs with hlen hflat
  · rfl
  · rfl
  · rw [Option.isSome_map]
    unfold regress
    rw [if_neg]
    · rfl
    · intro h
      apply hflat
      rw [maxOf_sub_minOf_of_const h]
      positivity

theorem ouColumn_isSome (N : Numerics K) (rows : List (Snapshot K)) (i : ℕ) :
    (ouColumn N rows i).isSome := by
  apply rolling_isSome
  intro _
  exact ouHalflife_isSome N _

/-- Only a Kyle window can stop a row. -/
theorem featureRow_isSome_iff {N : Numerics K} (hN : N.Documented) {rows : List (Snapshot K)}
    {i : ℕ} (hi : i < rows.length) :
    (featureRow N rows i).isSome ↔ (kyleColumn N rows i).isSome := by
  constructor
  · intro h
    by_contra hkyle
    rw [kyleColumn_of_featureRow (Option.not_isSome_iff_eq_none.mp hkyle)] at h
    cases h
  · intro h
    apply featureRow_isSome hi
    · exact hurstColumn_isSome hN (by decide) (by decide) rows i
    · exact hurstColumn_isSome hN (by decide) (by decide) rows i
    · exact ouColumn_isSome N rows i
    · exact h

/-! ### Continuations that differ in one OFI value -/

/-- A fit that gives weight to one value tells two of them apart. -/
theorem eq_of_fitAt_eq {xs xs' : List K} {s i j : ℕ} (hj : j < 5)
    (hsame : ∀ m, m ≠ s + j → xs[m]? = xs'[m]?) (hweight : fitWeight (i - s) j ≠ 0)
    (h : fitAt xs s i = fitAt xs' s i) : xs.getD (s + j) 0 = xs'.getD (s + j) 0 := by
  unfold fitAt at h
  rw [div_left_inj' (by norm_num)] at h
  have hmem : j ∈ Finset.range 5 := Finset.mem_range.mpr hj
  rw [← Finset.add_sum_erase _ _ hmem, ← Finset.add_sum_erase _ _ hmem] at h
  have hrest : ∀ m ∈ (Finset.range 5).erase j, (fitWeight (i - s) m : K) * xs.getD (s + m) 0
      = (fitWeight (i - s) m : K) * xs'.getD (s + m) 0 := by
    intro m hm
    have hmj : m ≠ j := Finset.ne_of_mem_erase hm
    rw [List.getD_eq_getElem?_getD, List.getD_eq_getElem?_getD, hsame (s + m) (by omega)]
  rw [Finset.sum_congr rfl hrest, add_left_inj] at h
  exact mul_left_cancel₀ (by exact_mod_cast hweight) h

/-- The smoothed value at a row within two of the continuation tells the OFI values apart. -/
theorem eq_of_ofiSg_continued {N : Numerics K} (hN : N.Documented) {P : List (Snapshot K)}
    {a a' : K} {i : ℕ} (hi : i < P.length) (hnear : P.length ≤ i - 2 + 4)
    (hweight : fitWeight (i - (i - 2)) (P.length - (i - 2)) ≠ 0)
    (h : ofiSg N (continued P a) i = ofiSg N (continued P a') i) : a = a' := by
  have hstart : windowStart (P.length + 4) i = i - 2 := by
    unfold windowStart
    omega
  unfold ofiSg smoothed at h
  rw [if_pos (by simp; omega), if_pos (by simp; omega), hN.savgol _ _ (by simp; omega)
    (by simp; omega), hN.savgol _ _ (by simp; omega) (by simp; omega), List.length_map,
    List.length_map, continued_length, continued_length, hstart, Option.some.injEq] at h
  have hplace : i - 2 + (P.length - (i - 2)) = P.length := by omega
  have heq := eq_of_fitAt_eq (by omega) ?_ hweight h
  · rw [hplace, List.getD_eq_getElem?_getD, List.getD_eq_getElem?_getD, List.getElem?_map,
      List.getElem?_map, continued_getElem?_length, continued_getElem?_length] at heq
    exact heq
  · intro m hm
    rw [hplace] at hm
    rw [List.getElem?_map, List.getElem?_map, continued_getElem?_of_ne P a a' hm]

theorem ofiSg_last_injective {N : Numerics K} (hN : N.Documented) {P : List (Snapshot K)}
    (hP : P ≠ []) {a a' : K}
    (h : ofiSg N (continued P a) (P.length - 1) = ofiSg N (continued P a') (P.length - 1)) :
    a = a' := by
  have hpos : 0 < P.length := List.length_pos_of_ne_nil hP
  refine eq_of_ofiSg_continued hN (by omega) (by omega) ?_ h
  -- the first two rows are read off the first window, the others off a centred one
  by_cases h1 : P.length = 1
  · rw [h1]; decide
  by_cases h2 : P.length = 2
  · rw [h2]; decide
  have hk : P.length - 1 - (P.length - 1 - 2) = 2 := by omega
  have hj : P.length - (P.length - 1 - 2) = 3 := by omega
  rw [hk, hj]
  decide

theorem ofiSg_before_last_injective {N : Numerics K} (hN : N.Documented) {P : List (Snapshot K)}
    (hP : 4 ≤ P.length) {a a' : K}
    (h : ofiSg N (continued P a) (P.length - 2) = ofiSg N (continued P a') (P.length - 2)) :
    a = a' := by
  refine eq_of_ofiSg_continued hN (by omega) (by omega) ?_ h
  have hk : P.length - 2 - (P.length - 2 - 2) = 2 := by omega
  have hj : P.length - (P.length - 2 - 2) = 4 := by omega
  rw [hk, hj]
  decide

/-! ### The continuations return -/

/-- The last two smoothed values of the prefix differ, where a window can hold them. -/
def Separates (N : Numerics K) (P : List (Snapshot K)) (a : K) : Prop :=
  56 ≤ P.length →
    ofiSg N (continued P a) (P.length - 3) ≠ ofiSg N (continued P a) (P.length - 3 + 1)

/-- The continuation returns when the prefix does not abort and the OFI value separates. -/
theorem addRollingFeatures_continued {N : Numerics K} (hN : N.Documented)
    {P : List (Snapshot K)} (hP : ¬ Aborts N P) {a : K} (ha : Separates N P a) :
    ∃ out, addRollingFeatures N (continued P a) = some out := by
  apply addRollingFeatures_eq_some
  intro i hi
  rw [featureRow_isSome_iff hN hi]
  rw [continued_length] at hi
  by_cases hin : i + 2 < P.length
  · unfold continued
    rw [kyleColumn_append hN hin]
    by_contra hnone
    exact hP ⟨i, hin, Option.not_isSome_iff_eq_none.mp hnone⟩
  by_cases hfull : 60 ≤ i + 1
  · exact kyleColumn_isSome hN (by rw [continued_length]; omega) (by omega) (by omega)
      (ha (by omega))
  · unfold kyleColumn rolling
    rw [if_neg hfull]
    rfl

theorem separates_or {N : Numerics K} (hN : N.Documented) (P : List (Snapshot K)) {a a' : K}
    (hne : a ≠ a') : Separates N P a ∨ Separates N P a' := by
  by_contra h
  unfold Separates at h
  push Not at h
  obtain ⟨⟨hlen, ha⟩, -, ha'⟩ := h
  apply hne
  apply ofiSg_before_last_injective hN (by omega : 4 ≤ P.length)
  have hplace : P.length - 2 = P.length - 3 + 1 := by omega
  rw [hplace, ← ha, ← ha']
  -- the value at the row before is decided by the prefix
  apply hasReach_smoothed hN
  have hreach : smoothReach (P.length - 3) + 1 ≤ P.length := by
    unfold smoothReach
    omega
  rw [continued_take P a hreach, continued_take P a' hreach]

theorem exists_separates {N : Numerics K} (hN : N.Documented) (P : List (Snapshot K)) :
    ∃ a a', a ≠ a' ∧ Separates N P a ∧ Separates N P a' := by
  have h01 : (0 : K) ≠ 1 := zero_ne_one
  have h02 : (0 : K) ≠ 2 := two_ne_zero.symm
  have h12 : (1 : K) ≠ 2 := by norm_num
  by_cases h0 : Separates N P 0
  · rcases separates_or hN P h12 with h1 | h2
    · exact ⟨0, 1, h01, h0, h1⟩
    · exact ⟨0, 2, h02, h0, h2⟩
  · have h1 := (separates_or hN P h01).resolve_left h0
    have h2 := (separates_or hN P h02).resolve_left h0
    exact ⟨1, 2, h12, h1, h2⟩

/-- The smoothed OFI of the prefix's last row depends on what follows. -/
theorem not_causalAt {N : Numerics K} (hN : N.Documented) {P : List (Snapshot K)} (hP : P ≠ [])
    (habort : ¬ Aborts N P) : ¬ CausalAt N P := by
  intro hcausal
  have hpos : 0 < P.length := List.length_pos_of_ne_nil hP
  obtain ⟨a, a', hne, ha, ha'⟩ := exists_separates hN P
  obtain ⟨out, hout⟩ := addRollingFeatures_continued hN habort ha
  obtain ⟨out', hout'⟩ := addRollingFeatures_continued hN habort ha'
  apply hne
  exact ofiSg_last_injective hN hP (hcausal.ofiSg_eq hout hout' (by omega))

/-- The features of a shared prefix are settled only when the prefix is empty or every frame that
begins with it aborts. -/
theorem causalAt_iff {N : Numerics K} (hN : N.Documented) (P : List (Snapshot K)) :
    CausalAt N P ↔ P = [] ∨ Aborts N P := by
  constructor
  · intro h
    by_contra hneither
    rw [not_or] at hneither
    exact not_causalAt hN hneither.1 hneither.2 h
  · rintro (rfl | habort) rest rest' out out' hout hout'
    · rfl
    · rw [addRollingFeatures_of_aborts hN habort rest] at hout
      cases hout

end returns

/-! ### A quiet market -/

section quiet

/-- The library functions over the reals. -/
noncomputable def realNumerics : Numerics ℝ where
  log := Real.log
  sqrt := Real.sqrt
  savgolFilter xs := (List.range xs.length).map fun i => fitAt xs (windowStart xs.length i) i
  linregress xs ys :=
    (List.zipWith (fun x y => (x - mean xs) * (y - mean ys)) xs ys).sum
      / (xs.map fun x => (x - mean xs) ^ 2).sum

theorem realNumerics_documented : realNumerics.Documented where
  savgol := by
    intro xs i _ hi
    simp [realNumerics, hi]
  log_inj := by
    intro a b ha hb h
    exact Real.log_injOn_pos (Set.mem_Ioi.mpr ha) (Set.mem_Ioi.mpr hb) h

/-- A second with a quote around 100 and the OFI `a`. -/
def tickRow (a : ℝ) : Snapshot ℝ :=
  { ofiRow a with
    bestBid := some ((99 : ℕ) : ℝ)
    bestAsk := some ((101 : ℕ) : ℝ)
    spreadMean := some ((2 : ℕ) : ℝ) }

/-- Five seconds without order flow. -/
def quietFrame : List (Snapshot ℝ) := List.replicate 5 (tickRow 0)

theorem quietFrame_length : quietFrame.length = 5 := List.length_replicate

/-- The case of a quiet prefix: the disjunction is about it. -/
theorem causalAt_iff_quiet :
    CausalAt realNumerics quietFrame ↔ quietFrame = [] ∨ Aborts realNumerics quietFrame :=
  causalAt_iff realNumerics_documented quietFrame

/-- A frame too short for a Kyle window has features. -/
theorem addRollingFeatures_of_short {rows : List (Snapshot ℝ)} (h : rows.length < 60) :
    ∃ out, addRollingFeatures realNumerics rows = some out := by
  apply addRollingFeatures_eq_some
  intro i hi
  rw [featureRow_isSome_iff realNumerics_documented hi]
  unfold kyleColumn rolling
  rw [if_neg (by omega)]
  rfl

theorem ofiSg_quiet : ofiSg realNumerics quietFrame 4 = some 0 := by
  unfold ofiSg smoothed
  rw [if_pos (by simp [quietFrame]),
    realNumerics_documented.savgol _ _ (by simp [quietFrame]) (by simp [quietFrame])]
  simp [quietFrame, tickRow, ofiRow, fitAt, Finset.sum_range_succ, windowStart]

theorem ofiSg_burst : ofiSg realNumerics (quietFrame ++ [tickRow 35]) 4 = some 9 := by
  unfold ofiSg smoothed
  rw [if_pos (by simp [quietFrame]),
    realNumerics_documented.savgol _ _ (by simp [quietFrame]) (by simp [quietFrame])]
  simp [quietFrame, tickRow, ofiRow, fitAt, Finset.sum_range_succ, windowStart, fitWeight,
    fitWeights]

/-- Live, the fifth second's smoothed OFI is 0; with one second more it is 9. -/
theorem live_differs_from_training : ¬ CausalAt realNumerics quietFrame := by
  intro hcausal
  have hlive : (quietFrame ++ []).length < 60 := by rw [List.append_nil, quietFrame_length]; omega
  have htraining : (quietFrame ++ [tickRow 35]).length < 60 := by
    rw [List.length_append, quietFrame_length, List.length_singleton]
    omega
  obtain ⟨live, hlive⟩ := addRollingFeatures_of_short hlive
  obtain ⟨training, htraining⟩ := addRollingFeatures_of_short htraining
  have hsame := hcausal.ofiSg_eq hlive htraining (by rw [quietFrame_length]; omega : 4 < _)
  rw [List.append_nil, ofiSg_quiet, ofiSg_burst, Option.some.injEq] at hsame
  norm_num at hsame

end quiet

end Ml
end MagnumOpus
