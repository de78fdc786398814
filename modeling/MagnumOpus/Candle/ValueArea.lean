import MagnumOpus.Candle.FullBar
import MagnumOpus.Lib.BinaryRounding
import MagnumOpus.Lib.GreedySpan
import MagnumOpus.Lib.KeyedSum
import MagnumOpus.Lib.SliceSort

/-! # The value area of a footprint

`ComputeValueArea` (`footprint.go`): the price with the most volume, and the prices around it that
hold most of the volume.  The levels come from a loop over a map, in any order, and are put in order
by a sort that need not be stable.

* **Rounding.** The result of every operation goes through `round`: nothing is rounded with `id`,
  and `roundBinary64` is what a float64 does.  The whole volume is added up in the order of the
  loop.
* **The law.** The value area is the span around the point of control that is grown greedily until
  70 percent of the volume have been added up (`value_area`).
* **Orders.** The point of control does not depend on any order.  The ends of the area do not
  either when the levels of one price have one volume and both orders add up to the same volume.
  Price texts that differ and denote one price, such as `"100"` and `"100.0"`, are levels of their
  own, and rounded sums depend on the order. -/

namespace MagnumOpus.Candle

open KeyedSum

structure Level where
  price : ℚ
  vol : ℚ
deriving DecidableEq

section Compute

/-- A loop over a footprint takes it in some order. -/
abbrev Footprint := Entries String FootprintCell

variable (round : ℚ → ℚ) (parseFloat : String → Option ℚ)

/-- The levels with a price; other keys are skipped. -/
def levelsOf (footprint : Footprint) : List Level :=
  footprint.entries.filterMap fun e =>
    (parseFloat e.1).map fun price => ⟨price, round (e.2.buyVol + e.2.sellVol)⟩

def totalVol (levels : List Level) : ℚ := levels.foldl (fun total l => round (total + l.vol)) 0

/-- `levels[i]`. -/
def levelAt (levels : List Level) (i : ℕ) : Level := levels.getD i ⟨0, 0⟩

/-- One turn of the loop for the point of control. -/
def pocStep (levels : List Level) (pocIdx : ℕ) (e : Level × ℕ) : ℕ :=
  if (levelAt levels pocIdx).vol < e.1.vol ∨
      e.1.vol = (levelAt levels pocIdx).vol ∧ (levelAt levels pocIdx).price < e.1.price then e.2
  else pocIdx

def findPoc (levels : List Level) : ℕ := levels.zipIdx.foldl (pocStep levels) 0

/-- What the loop of the expansion changes. -/
structure Expansion where
  lo : ℕ
  hi : ℕ
  accumulated : ℚ
deriving DecidableEq

/-- The next level is the one above, on a tie too. -/
def expandHi (levels : List Level) (lo hi : ℕ) : Bool :=
  let canLo := 0 < lo
  let canHi := hi < levels.length - 1
  if canHi ∧ canLo then decide ((levelAt levels (lo - 1)).vol ≤ (levelAt levels (hi + 1)).vol)
  else decide canHi

/-- The body of the loop. -/
def expandOnce (levels : List Level) (x : Expansion) : Expansion :=
  if expandHi levels x.lo x.hi then
    ⟨x.lo, x.hi + 1, round (x.accumulated + (levelAt levels (x.hi + 1)).vol)⟩
  else ⟨x.lo - 1, x.hi, round (x.accumulated + (levelAt levels (x.lo - 1)).vol)⟩

/-- The loop, with one turn for each level at most. -/
def expand (levels : List Level) (target : ℚ) : ℕ → Expansion → Expansion
  | 0, x => x
  | n + 1, x =>
      if x.accumulated < target ∧ (0 < x.lo ∨ x.hi < levels.length - 1) then
        expand levels target n (expandOnce round levels x)
      else x

/-- The share of the volume that the area holds. -/
def areaShare : ℚ := mkRat 70 100

/-- What the area has to hold of a whole. -/
def areaTarget (total : ℚ) : ℚ := round (total * round areaShare)

def computeValueArea (S : SliceSort Level ℚ) (footprint : Footprint) : Option ValueArea :=
  let levels := levelsOf round parseFloat footprint
  let totalVol := totalVol round levels
  if levels = [] ∨ totalVol = 0 then none
  else
    let sorted := S.sort Level.price levels
    let pocIdx := findPoc sorted
    let poc := levelAt sorted pocIdx
    if sorted.length = 1 then some ⟨poc.price, poc.price, poc.price, poc.vol⟩
    else
      let x := expand round sorted (areaTarget round totalVol) sorted.length
        ⟨pocIdx, pocIdx, poc.vol⟩
      some ⟨poc.price, (levelAt sorted x.hi).price, (levelAt sorted x.lo).price, poc.vol⟩

end Compute

variable {round : ℚ → ℚ} {parseFloat : String → Option ℚ} {S S' : SliceSort Level ℚ}
  {levels : List Level}

/-! ### The point of control -/

/-- The level has less volume, or the same volume at a price that is not higher. -/
def Level.Below (l m : Level) : Prop := l.vol < m.vol ∨ l.vol = m.vol ∧ l.price ≤ m.price

theorem Level.Below.refl (l : Level) : l.Below l := .inr ⟨rfl, le_rfl⟩

theorem Level.Below.trans {l m n : Level} (h : l.Below m) (h' : m.Below n) : l.Below n := by
  rcases h with hlt | ⟨heq, hle⟩ <;> rcases h' with hlt' | ⟨heq', hle'⟩
  · exact .inl (hlt.trans hlt')
  · exact .inl (heq' ▸ hlt)
  · exact .inl (heq ▸ hlt')
  · exact .inr ⟨heq.trans heq', hle.trans hle'⟩

theorem Level.Below.antisymm {l m : Level} (h : l.Below m) (h' : m.Below l) :
    l.vol = m.vol ∧ l.price = m.price := by
  rcases h with hlt | ⟨heq, hle⟩ <;> rcases h' with hlt' | ⟨heq', hle'⟩
  · exact absurd hlt' hlt.not_gt
  · exact absurd hlt (heq' ▸ lt_irrefl _)
  · exact absurd hlt' (heq ▸ lt_irrefl _)
  · exact ⟨heq, le_antisymm hle hle'⟩

theorem levelAt_append_cons (before after : List Level) (l : Level) :
    levelAt (before ++ l :: after) before.length = l := by
  rw [levelAt, List.getD_append_right _ _ _ _ (le_refl _), Nat.sub_self, List.getD_cons_zero]

/-- What one turn of the loop keeps: the point of control is the highest level so far. -/
theorem pocStep_spec {before after : List Level} {l : Level} {poc : ℕ}
    (hpoc : poc < before.length)
    (hbelow : ∀ m ∈ before, m.Below (levelAt (before ++ l :: after) poc)) :
    let poc' := pocStep (before ++ l :: after) poc (l, before.length)
    poc' < (before ++ [l]).length ∧
      ∀ m ∈ before ++ [l], m.Below (levelAt (before ++ l :: after) poc') := by
  intro poc'
  have hlen : (before ++ [l]).length = before.length + 1 := by
    rw [List.length_append, List.length_singleton]
  by_cases hhigher : (levelAt (before ++ l :: after) poc).vol < l.vol ∨
      l.vol = (levelAt (before ++ l :: after) poc).vol ∧
        (levelAt (before ++ l :: after) poc).price < l.price
  · have hnew : poc' = before.length := if_pos hhigher
    have hbelow' : (levelAt (before ++ l :: after) poc).Below l :=
      hhigher.imp id fun h => ⟨h.1.symm, h.2.le⟩
    rw [hnew, levelAt_append_cons]
    refine ⟨by omega, fun m hm => ?_⟩
    rcases List.mem_append.mp hm with hm | hm
    · exact (hbelow m hm).trans hbelow'
    · exact List.mem_singleton.mp hm ▸ .refl m
  · have hsame : poc' = poc := if_neg hhigher
    obtain ⟨hvol, hprice⟩ := not_or.mp hhigher
    rw [hsame]
    refine ⟨by omega, fun m hm => ?_⟩
    rcases List.mem_append.mp hm with hm | hm
    · exact hbelow m hm
    · rw [List.mem_singleton.mp hm]
      rcases (not_lt.mp hvol).lt_or_eq with hlt | heq
      · exact .inl hlt
      · exact .inr ⟨heq, not_lt.mp fun hlt => hprice ⟨heq, hlt⟩⟩

theorem foldl_pocStep : ∀ (after before : List Level) {poc : ℕ}, poc < before.length →
    (∀ m ∈ before, m.Below (levelAt (before ++ after) poc)) →
    let poc' := (after.zipIdx before.length).foldl (pocStep (before ++ after)) poc
    poc' < (before ++ after).length ∧
      ∀ m ∈ before ++ after, m.Below (levelAt (before ++ after) poc')
  | [], before, poc, hpoc, hbelow => by
      rw [List.append_nil] at hbelow ⊢
      exact ⟨hpoc, hbelow⟩
  | l :: after, before, poc, hpoc, hbelow => by
      obtain ⟨hpoc', hbelow'⟩ := pocStep_spec hpoc hbelow
      have hrest := foldl_pocStep after (before ++ [l]) hpoc'
        (by rwa [List.append_assoc, List.singleton_append])
      rw [List.append_assoc, List.singleton_append, List.length_append, List.length_singleton]
        at hrest
      rw [List.zipIdx_cons, List.foldl_cons]
      exact hrest

/-- The point of control is the highest of the levels. -/
theorem findPoc_spec (h : levels ≠ []) :
    findPoc levels < levels.length ∧ ∀ l ∈ levels, l.Below (levelAt levels (findPoc levels)) := by
  obtain ⟨l, rest, rfl⟩ := List.exists_cons_of_ne_nil h
  have hfirst : pocStep (l :: rest) 0 (l, 0) = 0 := ite_self 0
  have hspec := foldl_pocStep rest [l] (Nat.zero_lt_one) (by
    intro m hm
    rw [List.mem_singleton.mp hm]
    exact .refl l)
  rw [List.length_singleton, List.singleton_append] at hspec
  rw [findPoc, List.zipIdx_cons, List.foldl_cons, hfirst]
  exact hspec

/-! ### The expansion -/

/-- The weights of the places. -/
def volumes (levels : List Level) : List ℚ := levels.map Level.vol

theorem length_volumes (levels : List Level) : (volumes levels).length = levels.length :=
  List.length_map _

theorem levelAt_vol (levels : List Level) (i : ℕ) :
    (levelAt levels i).vol = (volumes levels).getD i 0 :=
  (List.getD_map levels (⟨0, 0⟩ : Level) Level.vol).symm

/-- The addition of volumes. -/
def addVol (round : ℚ → ℚ) (x y : ℚ) : ℚ := round (x + y)

/-- A span, with what has been added up. -/
def ofSpan (s : Span × ℚ) : Expansion := ⟨s.1.lo, s.1.hi, s.2⟩

theorem expandHi_iff (levels : List Level) (s : Span) :
    expandHi levels s.lo s.hi = true ↔ s.growsRight (volumes levels) := by
  rw [expandHi, Span.growsRight, length_volumes, ← levelAt_vol, ← levelAt_vol]
  by_cases hhi : s.hi < levels.length - 1 <;> by_cases hlo : 0 < s.lo <;> simp [hhi, hlo]

theorem expandOnce_ofSpan (s : Span) (w : ℚ) :
    expandOnce round levels (ofSpan (s, w)) = ofSpan (s.widen (volumes levels),
      addVol round w ((volumes levels).getD (s.next (volumes levels)) 0)) := by
  have hside : expandHi levels (ofSpan (s, w)).lo (ofSpan (s, w)).hi = true ↔
      s.growsRight (volumes levels) := expandHi_iff levels s
  rw [← levelAt_vol]
  by_cases hright : s.growsRight (volumes levels)
  · rw [expandOnce, if_pos (hside.mpr hright), Span.widen_of_growsRight hright, Span.next,
      if_pos hright]
    rfl
  · rw [expandOnce, if_neg fun h => hright (hside.mp h), Span.widen_of_not_growsRight hright,
      Span.next, if_neg hright]
    rfl

theorem expand_ofSpan (target : ℚ) : ∀ (n : ℕ) (s : Span) (w : ℚ),
    expand round levels target n (ofSpan (s, w)) =
      ofSpan (s.reach (addVol round) (volumes levels) target n w)
  | 0, _, _ => rfl
  | n + 1, s, w => by
      have hguard : ((ofSpan (s, w)).accumulated < target ∧
            (0 < (ofSpan (s, w)).lo ∨ (ofSpan (s, w)).hi < levels.length - 1)) ↔
          w < target ∧ s.CanGrow (volumes levels) := by
        rw [Span.CanGrow, length_volumes]
        rfl
      rw [expand, Span.reach]
      by_cases hgoes : w < target ∧ s.CanGrow (volumes levels)
      · rw [if_pos (hguard.mpr hgoes), if_pos hgoes, expandOnce_ofSpan]
        exact expand_ofSpan target n _ _
      · rw [if_neg fun h => hgoes (hguard.mp h), if_neg hgoes]

theorem total_single {i : ℕ} (hi : i < levels.length) :
    Span.total (volumes levels) ⟨i, i⟩ = (levelAt levels i).vol := by
  have hi' : i < (volumes levels).length := by rwa [length_volumes]
  rw [levelAt_vol, Span.total, List.take_succ_eq_append_getElem hi', List.drop_append_of_le_length]
  · rw [List.drop_eq_nil_of_le (List.length_take_le _ _), List.nil_append, List.sum_singleton,
      List.getD_eq_getElem _ _ hi']
  · rw [List.length_take_of_le hi'.le]

/-! ### The law -/

/-- What the expansion has added up after some steps. -/
def heldVol (round : ℚ → ℚ) (levels : List Level) (poc n : ℕ) : ℚ :=
  Span.held (addVol round) (volumes levels) ⟨poc, poc⟩ (levelAt levels poc).vol n

/-- The places that the expansion has come to after some steps. -/
def spanAt (levels : List Level) (poc n : ℕ) : Span := Span.grown (volumes levels) ⟨poc, poc⟩ n

/-- What a value area has to be: the highest level, and the greedy span around it, grown until its
share has been added up. -/
structure IsValueArea (round : ℚ → ℚ) (levels : List Level) (target : ℚ) (area : ValueArea)
    (poc steps : ℕ) : Prop where
  poc_lt : poc < levels.length
  pocPrice : area.pocPrice = (levelAt levels poc).price
  pocVolume : area.pocVolume = (levelAt levels poc).vol
  highest : ∀ l ∈ levels, l.Below (levelAt levels poc)
  within : (spanAt levels poc steps).Within (volumes levels)
  contains_lo : (spanAt levels poc steps).lo ≤ poc
  contains_hi : poc ≤ (spanAt levels poc steps).hi
  valPrice : area.valPrice = (levelAt levels (spanAt levels poc steps).lo).price
  vahPrice : area.vahPrice = (levelAt levels (spanAt levels poc steps).hi).price
  share : target ≤ heldVol round levels poc steps ∨
    ¬ (spanAt levels poc steps).CanGrow (volumes levels)
  needed : ∀ n < steps, heldVol round levels poc n < target ∧
    (spanAt levels poc n).CanGrow (volumes levels)

/-- The span holds the share, and none of the spans before it does. -/
structure HoldsShare (levels : List Level) (target : ℚ) (poc steps : ℕ) : Prop where
  share : target ≤ (spanAt levels poc steps).total (volumes levels)
  needed : ∀ n < steps, (spanAt levels poc n).total (volumes levels) < target

/-! ### Without rounding -/

theorem totalVol_id (levels : List Level) : totalVol id levels = (volumes levels).sum := by
  rw [volumes, List.sum_eq_foldl, List.foldl_map]
  rfl

theorem totalVol_id_perm {levels levels' : List Level} (h : levels.Perm levels') :
    totalVol id levels = totalVol id levels' := by
  rw [totalVol_id, totalVol_id]
  exact (h.map Level.vol).sum_eq

theorem share_le {v : ℚ} (h : 0 < v) : areaTarget id v ≤ v := by
  have hone : areaShare ≤ 1 := by decide +kernel
  exact mul_le_of_le_one_right h.le hone

/-- Without rounding, the span itself holds the share. -/
theorem IsValueArea.holdsShare {area : ValueArea} {poc steps : ℕ} {total : ℚ}
    (h : IsValueArea id levels (areaTarget id total) area poc steps) (hpos : 0 < total)
    (htotal : total = (volumes levels).sum) :
    HoldsShare levels (areaTarget id total) poc steps := by
  have hwithin : Span.Within (volumes levels) ⟨poc, poc⟩ :=
    ⟨le_refl _, by rw [length_volumes]; exact h.poc_lt⟩
  have hheld : ∀ n ≤ steps, heldVol id levels poc n =
      (spanAt levels poc n).total (volumes levels) := by
    intro n hn
    rw [heldVol, ← total_single h.poc_lt]
    exact Span.held_add n hwithin fun m hm => (h.needed m (hm.trans_le hn)).2
  constructor
  · rcases h.share with hreached | hwhole
    · rwa [hheld steps le_rfl] at hreached
    · rw [Span.total_of_not_canGrow hwhole h.within, ← htotal]
      exact share_le hpos
  · intro n hn
    rw [← hheld n hn.le]
    exact (h.needed n hn).1

/-! ### The value area -/

theorem levelsOf_ne_nil {footprint : Footprint}
    (htotal : 0 < totalVol round (levelsOf round parseFloat footprint)) :
    levelsOf round parseFloat footprint ≠ [] := by
  intro hnil
  rw [hnil] at htotal
  exact lt_irrefl 0 htotal

theorem exists_isValueArea {footprint : Footprint}
    (htotal : 0 < totalVol round (levelsOf round parseFloat footprint)) :
    ∃ area, computeValueArea round parseFloat S footprint = some area ∧
      ∃ poc steps, IsValueArea round (S.sort Level.price (levelsOf round parseFloat footprint))
        (areaTarget round (totalVol round (levelsOf round parseFloat footprint))) area poc
        steps := by
  generalize hsorted : S.sort Level.price (levelsOf round parseFloat footprint) = levels
  have hperm : levels.Perm (levelsOf round parseFloat footprint) := hsorted ▸ S.perm _ _
  have hsome := not_or.mpr ⟨levelsOf_ne_nil htotal, htotal.ne'⟩
  have hne : levels ≠ [] := by
    rintro rfl
    exact levelsOf_ne_nil htotal hperm.symm.eq_nil
  obtain ⟨hpoc, hhighest⟩ := findPoc_spec hne
  have hwithin : Span.Within (volumes levels) ⟨findPoc levels, findPoc levels⟩ :=
    ⟨le_refl _, by rwa [length_volumes]⟩
  have houtside : Span.outside (volumes levels) ⟨findPoc levels, findPoc levels⟩ ≤
      levels.length := by
    rw [Span.outside, length_volumes]
    simp only
    omega
  obtain ⟨steps, hreach, hwithin', hlo, hhi, hshare, hneeded⟩ :=
    Span.exists_grown_reach (addVol round)
      (areaTarget round (totalVol round (levelsOf round parseFloat footprint)))
      (w := (levelAt levels (findPoc levels)).vol) levels.length hwithin houtside
  simp only [computeValueArea, if_neg hsome, hsorted]
  by_cases hone : levels.length = 1
  · -- A single level is not expanded; it is the only place of the span.
    rw [if_pos hone]
    have hend : ∀ i, i < (volumes levels).length → i = findPoc levels := by
      intro i hi
      rw [length_volumes] at hi
      omega
    have hlo' := hend _ (hwithin'.ordered.trans_lt hwithin'.bounded)
    have hhi' := hend _ hwithin'.bounded
    exact ⟨_, rfl, findPoc levels, steps, hpoc, rfl, rfl, hhighest, hwithin', hlo, hhi,
      by rw [spanAt, hlo'], by rw [spanAt, hhi'], hshare, hneeded⟩
  · have hexpand := @expand_ofSpan round levels
      (areaTarget round (totalVol round (levelsOf round parseFloat footprint))) levels.length
      ⟨findPoc levels, findPoc levels⟩ (levelAt levels (findPoc levels)).vol
    rw [hreach] at hexpand
    simp only [ofSpan] at hexpand
    rw [if_neg hone, hexpand]
    exact ⟨_, rfl, findPoc levels, steps, hpoc, rfl, rfl, hhighest, hwithin', hlo, hhi, rfl, rfl,
      hshare, hneeded⟩

/-! ### Orders -/

theorem levelsOf_perm {footprint footprint' : Footprint}
    (h : footprint'.toFinmap = footprint.toFinmap) :
    (levelsOf round parseFloat footprint').Perm (levelsOf round parseFloat footprint) :=
  (AList.toFinmap_eq.mp h).filterMap _

theorem IsValueArea.poc_eq {levels' : List Level} {area area' : ValueArea}
    {poc steps poc' steps' : ℕ} {target target' : ℚ}
    (h : IsValueArea round levels target area poc steps)
    (h' : IsValueArea round levels' target' area' poc' steps')
    (hperm : levels.Perm levels') :
    area'.pocPrice = area.pocPrice ∧ area'.pocVolume = area.pocVolume := by
  have hmem : ∀ {ls : List Level} {i : ℕ}, i < ls.length → levelAt ls i ∈ ls := by
    intro ls i hi
    rw [levelAt, List.getD_eq_getElem _ _ hi]
    exact List.getElem_mem hi
  have hbelow := h'.highest _ (hperm.mem_iff.mp (hmem h.poc_lt))
  have hbelow' := h.highest _ (hperm.mem_iff.mpr (hmem h'.poc_lt))
  obtain ⟨hvol, hprice⟩ := hbelow'.antisymm hbelow
  exact ⟨by rw [h.pocPrice, h'.pocPrice, hprice], by rw [h.pocVolume, h'.pocVolume, hvol]⟩

/-- Without levels of one price that differ, and without rounding that does, no order matters. -/
theorem computeValueArea_congr {footprint footprint' : Footprint}
    (h : footprint'.toFinmap = footprint.toFinmap)
    (htotal : totalVol round (levelsOf round parseFloat footprint') =
      totalVol round (levelsOf round parseFloat footprint))
    (hprice : ∀ l ∈ levelsOf round parseFloat footprint,
      ∀ m ∈ levelsOf round parseFloat footprint, l.price = m.price → l = m) :
    computeValueArea round parseFloat S' footprint' =
      computeValueArea round parseFloat S footprint := by
  have hperm : (levelsOf round parseFloat footprint').Perm
      (levelsOf round parseFloat footprint) := levelsOf_perm h
  have hsorted : S'.sort Level.price (levelsOf round parseFloat footprint') =
      S.sort Level.price (levelsOf round parseFloat footprint) :=
    (SliceSort.sort_congr hperm.symm hprice).symm
  have hnil : levelsOf round parseFloat footprint' = [] ↔
      levelsOf round parseFloat footprint = [] :=
    ⟨fun hl => by rw [hl] at hperm; exact hperm.symm.eq_nil,
      fun hl => by rw [hl] at hperm; exact hperm.eq_nil⟩
  simp only [computeValueArea, hsorted, htotal, hnil]

/-- The prices of the texts below. -/
def priceOf (s : String) : Option ℚ :=
  [("99", mkRat 99 1), ("100", mkRat 100 1), ("100.0", mkRat 100 1), ("101", mkRat 101 1),
    ("102", mkRat 102 1), ("103", mkRat 103 1)].lookup s

/-- Volume 11 at 100, of which one unit is written `"100"`. -/
def splitHundred : Footprint :=
  [⟨"99", ⟨5, 0⟩⟩, ⟨"100", ⟨1, 0⟩⟩, ⟨"100.0", ⟨10, 0⟩⟩, ⟨"101", ⟨3, 0⟩⟩].toAList

/-- The two texts of 100 the other way round. -/
def splitHundred' : Footprint :=
  [⟨"99", ⟨5, 0⟩⟩, ⟨"100.0", ⟨10, 0⟩⟩, ⟨"100", ⟨1, 0⟩⟩, ⟨"101", ⟨3, 0⟩⟩].toAList

/-- The volumes 4, 4.9, 0.2 and 3.9 of a float64, which add up to 13. -/
def fourLevels : Footprint :=
  [⟨"100", ⟨4, 0⟩⟩, ⟨"101", ⟨mkRat 2758454771764429 (2 ^ 49), 0⟩⟩,
    ⟨"102", ⟨mkRat 3602879701896397 (2 ^ 54), 0⟩⟩,
    ⟨"103", ⟨mkRat 8782019273372467 (2 ^ 51), 0⟩⟩].toAList

/-- In this order they add up to 13.000000000000002. -/
def fourLevels' : Footprint :=
  [⟨"100", ⟨4, 0⟩⟩, ⟨"102", ⟨mkRat 3602879701896397 (2 ^ 54), 0⟩⟩,
    ⟨"101", ⟨mkRat 2758454771764429 (2 ^ 49), 0⟩⟩,
    ⟨"103", ⟨mkRat 8782019273372467 (2 ^ 51), 0⟩⟩].toAList

/-- The result depends on the order of the map. -/
def DependsOnOrder (round : ℚ → ℚ) (footprint footprint' : Footprint) : Prop :=
  0 < totalVol round (levelsOf round priceOf footprint) ∧
    footprint'.toFinmap = footprint.toFinmap ∧
    computeValueArea round priceOf .insertion footprint' ≠
      computeValueArea round priceOf .insertion footprint

end MagnumOpus.Candle
