import MagnumOpus.Candle.ColdStart
import MagnumOpus.Candle.FullBar
import MagnumOpus.Lib.KeyedSum
import MagnumOpus.Lib.SliceSort

/-! # The views of a book's depth

`ComputeDepthSnapshot` (`depth.go`), `BestQuote` and `TopNDepth` (`orderbook.go`) each go through
the levels of a book on their own, in any order of the map (`LoopOrder`), and sort them with a sort
that need not be stable.

* **Filters.** The snapshot leaves levels out whose size is not positive, `TopNDepth` does not; a
  size such as `"0.0"` stays in the book, since only the text `"0"` deletes a level.
* **Orders.** Price texts that differ and denote one price are levels of their own.

The sums of a snapshot are what the best levels of positive size hold (`tier_eq`).  The views agree,
and no order matters, where the sizes are positive and levels of one price have one size
(`depth_views`). -/

namespace MagnumOpus.Candle

open KeyedSum KeyedWrites

/-! ### Levels -/

inductive BookSide where
  | bid
  | ask
deriving DecidableEq, Repr

structure PriceLevel where
  price : ℚ
  size : ℚ
deriving DecidableEq

namespace BookSide

/-- The best price has the lowest rank. -/
def rank : BookSide → ℚ → ℚ
  | bid, p => -p
  | ask, p => p

/-- The price is within one percent of the best one. -/
def Near : BookSide → ℚ → ℚ → Prop
  | bid, best, p => best * mkRat 99 100 ≤ p ∧ p ≤ best
  | ask, best, p => best ≤ p ∧ p ≤ best * mkRat 101 100

instance (best p : ℚ) : ∀ side : BookSide, Decidable (side.Near best p)
  | bid => inferInstanceAs (Decidable (best * mkRat 99 100 ≤ p ∧ p ≤ best))
  | ask => inferInstanceAs (Decidable (best ≤ p ∧ p ≤ best * mkRat 101 100))

end BookSide

/-- One side of a book, in the order in which a loop takes it. -/
abbrev SideOrder := Entries String String

def OrderBook.side (ob : OrderBook) : BookSide → Levels
  | .bid => ob.bids
  | .ask => ob.asks

/-- The order in which loops take the levels of a book. -/
structure LoopOrder (ob : OrderBook) where
  levels : BookSide → SideOrder
  levels_eq : ∀ side, (levels side).toFinmap = ob.side side

section Views

variable (parseFloat : String → Option ℚ)

/-- The levels with a price and a size. -/
def readLevels (m : SideOrder) : List PriceLevel :=
  m.entries.filterMap fun e =>
    (parseFloat e.1).bind fun price => (parseFloat e.2).map fun size => ⟨price, size⟩

/-- Those of positive size. -/
def parseLevels (m : SideOrder) : List PriceLevel :=
  m.entries.filterMap fun e =>
    (parseFloat e.1).bind fun price => (parseFloat e.2).bind fun size =>
      if size ≤ 0 then none else some ⟨price, size⟩

/-! ### The snapshot -/

/-- What `accumDepth` returns. -/
structure Tiers where
  l1 : ℚ := 0
  l2 : ℚ := 0
  l3 : ℚ := 0
  l4 : ℚ := 0
  l5 : ℚ := 0
  top10 : ℚ := 0
  total : ℚ := 0
  priceVolumeSum : ℚ := 0
  weighted : ℚ := 0

/-- The body of the loop. -/
def addLevel (t : Tiers) (e : PriceLevel × ℕ) : Tiers :=
  let total := t.total + e.1.size
  let t' := { t with total, priceVolumeSum := t.priceVolumeSum + e.1.price * e.1.size }
  match e.2 with
  | 0 => { t' with l1 := total }
  | 1 => { t' with l2 := total }
  | 2 => { t' with l3 := total }
  | 3 => { t' with l4 := total }
  | 4 => { t' with l5 := total }
  | 9 => { t' with top10 := total }
  | _ => t'

/-- The sums, capped by the total where there are fewer levels. -/
def accumDepth (levels : List PriceLevel) : Tiers :=
  let t := levels.zipIdx.foldl addLevel {}
  let n := levels.length
  { t with
    l2 := if n < 2 then t.total else t.l2
    l3 := if n < 3 then t.total else t.l3
    l4 := if n < 4 then t.total else t.l4
    l5 := if n < 5 then t.total else t.l5
    top10 := if n < 10 then t.total else t.top10
    weighted := if 0 < t.total then t.priceVolumeSum / t.total else 0 }

/-- The volume within one percent of the best price. -/
def depthTo1Pct (side : BookSide) (m : SideOrder) (best : ℚ) : ℚ :=
  if best ≤ 0 then 0
  else (((parseLevels parseFloat m).filter fun l => side.Near best l.price).map
    PriceLevel.size).sum

def depthTo1PctBid : SideOrder → ℚ → ℚ := depthTo1Pct parseFloat .bid

def depthTo1PctAsk : SideOrder → ℚ → ℚ := depthTo1Pct parseFloat .ask

variable (S : SliceSort PriceLevel ℚ)

/-- The levels of a side, best first. -/
def sortedLevels (side : BookSide) (m : SideOrder) : List PriceLevel :=
  S.sort (fun l => side.rank l.price) (parseLevels parseFloat m)

/-- The levels are read in the order `o`, and those within one percent in the order `o'`. -/
def computeDepthSnapshot {ob : OrderBook} (o o' : LoopOrder ob) : DepthSnapshot :=
  let bidLvl := sortedLevels parseFloat S .bid (o.levels .bid)
  let askLvl := sortedLevels parseFloat S .ask (o.levels .ask)
  let bid := accumDepth bidLvl
  let ask := accumDepth askLvl
  { bidL1 := bid.l1, askL1 := ask.l1, bidL2 := bid.l2, askL2 := ask.l2
    bidL3 := bid.l3, askL3 := ask.l3, bidL4 := bid.l4, askL4 := ask.l4
    bidL5 := bid.l5, askL5 := ask.l5, bidTop10 := bid.top10, askTop10 := ask.top10
    bidTotal := bid.total, askTotal := ask.total
    hasBidVolume := 0 < bid.total, hasAskVolume := 0 < ask.total
    weightedBidPrice := if 0 < bid.total then bid.weighted else 0
    weightedAskPrice := if 0 < ask.total then ask.weighted else 0
    depthTo1PctBid := bidLvl.head?.elim 0 fun l =>
      depthTo1PctBid parseFloat (o'.levels .bid) l.price
    depthTo1PctAsk := askLvl.head?.elim 0 fun l =>
      depthTo1PctAsk parseFloat (o'.levels .ask) l.price }

/-! ### The book's own views -/

/-- What the best levels of a side hold. -/
def topOfSide (m : SideOrder) (n : ℕ) (side : BookSide) : ℚ :=
  let levels := S.sort (fun l => side.rank l.price) (readLevels parseFloat m)
  ((levels.take (min n levels.length)).map PriceLevel.size).sum

def topNDepth {ob : OrderBook} (o : LoopOrder ob) (n : ℕ) (side : String) : ℚ :=
  if side = "bid" then topOfSide parseFloat S (o.levels .bid) n .bid
  else if side = "ask" then topOfSide parseFloat S (o.levels .ask) n .ask
  else 0

/-- The best level so far: the price, and the texts of price and size. -/
structure Best where
  /-- An infinity at first. -/
  value : Option ℚ := none
  price : String := ""
  size : String := ""

/-- The body of the loop; a strictly better price takes the place of the best one. -/
def betterLevel (side : BookSide) (b : Best) (e : Sigma fun _ : String => String) : Best :=
  match parseFloat e.1 with
  | none => b
  | some f => if b.value.all (side.rank f < side.rank ·) then ⟨some f, e.1, e.2⟩ else b

def bestLevel (side : BookSide) (m : SideOrder) : Best :=
  m.entries.foldl (betterLevel parseFloat side) {}

def bestQuote {ob : OrderBook} (o : LoopOrder ob) : BestQuote :=
  let bid := bestLevel parseFloat .bid (o.levels .bid)
  let ask := bestLevel parseFloat .ask (o.levels .ask)
  if (o.levels .bid).entries = [] ∨ (o.levels .ask).entries = [] then ⟨"", "", "", ""⟩
  else if bid.price = "" ∨ ask.price = "" then ⟨"", "", "", ""⟩
  else ⟨bid.price, bid.size, ask.price, ask.size⟩

end Views

/-! ### Views by side -/

namespace DepthSnapshot

/-- The sum over the best levels of a side. -/
def tier (d : DepthSnapshot) : BookSide → ℕ → ℚ
  | .bid, 1 => d.bidL1
  | .bid, 2 => d.bidL2
  | .bid, 3 => d.bidL3
  | .bid, 4 => d.bidL4
  | .bid, 5 => d.bidL5
  | .bid, _ => d.bidTop10
  | .ask, 1 => d.askL1
  | .ask, 2 => d.askL2
  | .ask, 3 => d.askL3
  | .ask, 4 => d.askL4
  | .ask, 5 => d.askL5
  | .ask, _ => d.askTop10

/-- The numbers of levels that a snapshot sums over. -/
def tierSizes : List ℕ := [1, 2, 3, 4, 5, 10]

def total (d : DepthSnapshot) : BookSide → ℚ
  | .bid => d.bidTotal
  | .ask => d.askTotal

def to1Pct (d : DepthSnapshot) : BookSide → ℚ
  | .bid => d.depthTo1PctBid
  | .ask => d.depthTo1PctAsk

end DepthSnapshot

/-- The size of a quote on a side. -/
def BestQuote.size (q : BestQuote) : BookSide → String
  | .bid => q.bidSize
  | .ask => q.askSize

/-- The name of the side. -/
def BookSide.name : BookSide → String
  | .bid => "bid"
  | .ask => "ask"

open DepthSnapshot (tierSizes)

variable {parseFloat : String → Option ℚ} {S S' : SliceSort PriceLevel ℚ}

/-! ### The sums of a snapshot -/

/-- What the first levels hold. -/
def cumulative (levels : List PriceLevel) (n : ℕ) : ℚ :=
  ((levels.take n).map PriceLevel.size).sum

namespace Tiers

/-- The sum over the best levels. -/
def tier (t : Tiers) : ℕ → ℚ
  | 1 => t.l1
  | 2 => t.l2
  | 3 => t.l3
  | 4 => t.l4
  | 5 => t.l5
  | _ => t.top10

end Tiers

theorem forall_tierSizes {P : ℕ → Prop} :
    (∀ n ∈ tierSizes, P n) ↔ P 1 ∧ P 2 ∧ P 3 ∧ P 4 ∧ P 5 ∧ P 10 := by
  simp [tierSizes]

theorem addLevel_tier (t : Tiers) (l : PriceLevel) (i : ℕ) : ∀ n ∈ tierSizes,
    (addLevel t (l, i)).tier n = if i + 1 = n then t.total + l.size else t.tier n := by
  rw [forall_tierSizes]
  unfold addLevel
  refine ⟨?_, ?_, ?_, ?_, ?_, ?_⟩ <;> split <;> simp_all [Tiers.tier]

theorem addLevel_total (t : Tiers) (e : PriceLevel × ℕ) :
    (addLevel t e).total = t.total + e.1.size := by
  unfold addLevel
  split <;> rfl

theorem cumulative_append_singleton {levels : List PriceLevel} {l : PriceLevel} {n : ℕ}
    (h : n ≤ levels.length) : cumulative (levels ++ [l]) n = cumulative levels n := by
  rw [cumulative, List.take_append_of_le_length h, cumulative]

theorem cumulative_of_length_le {levels : List PriceLevel} {n : ℕ} (h : levels.length ≤ n) :
    cumulative levels n = (levels.map PriceLevel.size).sum := by
  rw [cumulative, List.take_of_length_le h]

theorem foldl_addLevel (levels : List PriceLevel) :
    (levels.zipIdx.foldl addLevel {}).total = (levels.map PriceLevel.size).sum ∧
      ∀ n ∈ tierSizes, (levels.zipIdx.foldl addLevel {}).tier n =
        if n ≤ levels.length then cumulative levels n else 0 := by
  induction levels using List.reverseRecOn with
  | nil =>
      refine ⟨rfl, ?_⟩
      rw [forall_tierSizes]
      simp [Tiers.tier]
  | append_singleton levels l ih =>
      obtain ⟨htotal, htier⟩ := ih
      rw [List.zipIdx_append, List.foldl_append, Nat.zero_add, List.zipIdx_singleton,
        List.foldl_cons, List.foldl_nil, addLevel_total, htotal]
      refine ⟨by simp, fun n hn => ?_⟩
      rw [addLevel_tier _ _ _ n hn, htier n hn, htotal, List.length_append, List.length_singleton]
      rcases Nat.lt_trichotomy n (levels.length + 1) with hlt | heq | hgt
      · have hle : n ≤ levels.length := Nat.le_of_lt_succ hlt
        rw [if_neg (by omega), if_pos hle, if_pos (by omega), cumulative_append_singleton hle]
      · subst heq
        rw [if_pos rfl, if_pos le_rfl, cumulative_of_length_le (by simp)]
        simp
      · rw [if_neg (by omega), if_neg (by omega), if_neg (by omega)]

theorem accumDepth_total (levels : List PriceLevel) :
    (accumDepth levels).total = (levels.map PriceLevel.size).sum := (foldl_addLevel levels).1

/-- The tiers are the sums over the first levels, also where there are fewer. -/
theorem accumDepth_tier (levels : List PriceLevel) : ∀ n ∈ tierSizes,
    (accumDepth levels).tier n = cumulative levels n := by
  obtain ⟨htotal, htier⟩ := foldl_addLevel levels
  have hcap : ∀ n ∈ tierSizes, (if levels.length < n then (levels.zipIdx.foldl addLevel {}).total
      else (levels.zipIdx.foldl addLevel {}).tier n) = cumulative levels n := by
    intro n hn
    by_cases hlt : levels.length < n
    · rw [if_pos hlt, htotal, cumulative_of_length_le hlt.le]
    · rw [if_neg hlt, htier n hn, if_pos (not_lt.mp hlt)]
  rw [forall_tierSizes] at hcap ⊢
  obtain ⟨hcap1, hcap2, hcap3, hcap4, hcap5, hcap10⟩ := hcap
  refine ⟨?_, hcap2, hcap3, hcap4, hcap5, hcap10⟩
  -- The first tier is not capped; without levels it is the total anyway.
  rw [← hcap1]
  by_cases hlt : levels.length < 1
  · have hnil : levels = [] := List.length_eq_zero_iff.mp (Nat.lt_one_iff.mp hlt)
    rw [hnil]
    rfl
  · rw [if_neg hlt]
    rfl

section Orders

variable {ob : OrderBook} {side : BookSide}

theorem tier_eq (o o' : LoopOrder ob) (side : BookSide) : ∀ n ∈ tierSizes,
    (computeDepthSnapshot parseFloat S o o').tier side n =
      cumulative (sortedLevels parseFloat S side (o.levels side)) n := by
  have htier := accumDepth_tier (sortedLevels parseFloat S side (o.levels side))
  rw [forall_tierSizes] at htier ⊢
  cases side <;> exact htier

theorem total_eq (o o' : LoopOrder ob) (side : BookSide) :
    (computeDepthSnapshot parseFloat S o o').total side =
      ((parseLevels parseFloat (o.levels side)).map PriceLevel.size).sum := by
  have hperm := (S.perm (fun l => side.rank l.price) (parseLevels parseFloat (o.levels side))).map
    PriceLevel.size
  have htotal := (accumDepth_total (sortedLevels parseFloat S side (o.levels side))).trans
    hperm.sum_eq
  cases side <;> exact htotal

theorem to1Pct_eq (o o' : LoopOrder ob) (side : BookSide) :
    (computeDepthSnapshot parseFloat S o o').to1Pct side =
      (sortedLevels parseFloat S side (o.levels side)).head?.elim 0 fun l =>
        depthTo1Pct parseFloat side (o'.levels side) l.price := by
  cases side <;> rfl

theorem size_pos {m : SideOrder} {l : PriceLevel} (h : l ∈ parseLevels parseFloat m) :
    0 < l.size := by
  obtain ⟨e, -, he⟩ := List.mem_filterMap.mp h
  obtain ⟨price, -, hprice⟩ := Option.bind_eq_some_iff.mp he
  obtain ⟨size, -, hsize⟩ := Option.bind_eq_some_iff.mp hprice
  split at hsize
  · cases hsize
  · next hpos =>
      obtain rfl := Option.some.inj hsize
      exact not_le.mp hpos

theorem sum_le_of_sublist {levels levels' : List PriceLevel} (h : levels.Sublist levels')
    (hpos : ∀ l ∈ levels', 0 < l.size) :
    (levels.map PriceLevel.size).sum ≤ (levels'.map PriceLevel.size).sum := by
  refine (h.map PriceLevel.size).sum_le_sum fun x hx => ?_
  obtain ⟨l, hl, rfl⟩ := List.mem_map.mp hx
  exact (hpos l hl).le

theorem sorted_size_pos {m : SideOrder} {l : PriceLevel}
    (h : l ∈ sortedLevels parseFloat S side m) : 0 < l.size :=
  size_pos (SliceSort.mem_sort.mp h)

theorem cumulative_mono (m : SideOrder) {n n' : ℕ} (h : n ≤ n') :
    cumulative (sortedLevels parseFloat S side m) n ≤
      cumulative (sortedLevels parseFloat S side m) n' :=
  sum_le_of_sublist (List.take_sublist_take_left h) fun _ hl =>
    sorted_size_pos (List.mem_of_mem_take hl)

theorem perm_entries (o o' : LoopOrder ob) (side : BookSide) :
    (o.levels side).entries.Perm (o'.levels side).entries :=
  AList.toFinmap_eq.mp ((o.levels_eq side).trans (o'.levels_eq side).symm)

theorem perm_parseLevels (o o' : LoopOrder ob) (side : BookSide) :
    (parseLevels parseFloat (o.levels side)).Perm (parseLevels parseFloat (o'.levels side)) :=
  (perm_entries o o' side).filterMap _

theorem rank_injective (side : BookSide) : Function.Injective side.rank := by
  cases side with
  | bid => exact neg_injective
  | ask => exact Function.injective_id

/-- The first of the sorted levels has the best price. -/
theorem head_best {m : SideOrder} {l : PriceLevel}
    (h : (sortedLevels parseFloat S side m).head? = some l) :
    l ∈ parseLevels parseFloat m ∧
      ∀ l' ∈ parseLevels parseFloat m, side.rank l.price ≤ side.rank l'.price := by
  have hsorted := S.sorted (fun l => side.rank l.price) (parseLevels parseFloat m)
  obtain ⟨rest, hrest⟩ : ∃ rest, sortedLevels parseFloat S side m = l :: rest :=
    ⟨_, (List.cons_head?_tail h).symm⟩
  rw [← sortedLevels, hrest, List.pairwise_cons] at hsorted
  refine ⟨SliceSort.mem_sort.mp (hrest ▸ List.mem_cons_self), fun l' hl' => ?_⟩
  have hmem : l' ∈ sortedLevels parseFloat S side m := SliceSort.mem_sort.mpr hl'
  rw [hrest] at hmem
  rcases List.mem_cons.mp hmem with rfl | hmem
  · exact le_rfl
  · exact hsorted.1 l' hmem

theorem depthTo1Pct_perm {m m' : SideOrder}
    (h : (parseLevels parseFloat m).Perm (parseLevels parseFloat m')) (best : ℚ) :
    depthTo1Pct parseFloat side m best = depthTo1Pct parseFloat side m' best := by
  unfold depthTo1Pct
  rw [((h.filter _).map PriceLevel.size).sum_eq]

/-- The first of the sorted levels has one price in every order. -/
theorem map_price_head_congr {m m' : SideOrder}
    (h : (parseLevels parseFloat m).Perm (parseLevels parseFloat m')) :
    (sortedLevels parseFloat S side m).head?.map PriceLevel.price =
      (sortedLevels parseFloat S' side m').head?.map PriceLevel.price := by
  have hsorted : (sortedLevels parseFloat S side m).Perm (sortedLevels parseFloat S' side m') :=
    ((S.perm _ _).trans h).trans (S'.perm _ _).symm
  cases hhead : (sortedLevels parseFloat S side m).head? with
  | none =>
      have hnil := List.head?_eq_none_iff.mp hhead
      rw [hnil] at hsorted
      rw [hsorted.symm.eq_nil]
      rfl
  | some l =>
      obtain ⟨hl, hbest⟩ := head_best hhead
      cases hhead' : (sortedLevels parseFloat S' side m').head? with
      | none =>
          rw [List.head?_eq_none_iff.mp hhead'] at hsorted
          rw [hsorted.eq_nil] at hhead
          cases hhead
      | some l' =>
          obtain ⟨hl', hbest'⟩ := head_best hhead'
          have hrank := le_antisymm (hbest l' (h.mem_iff.mpr hl')) (hbest' l (h.mem_iff.mp hl))
          exact congrArg some (rank_injective side hrank)

theorem to1Pct_congr (o₁ o₂ o₃ o₄ : LoopOrder ob) (side : BookSide) :
    (computeDepthSnapshot parseFloat S' o₃ o₄).to1Pct side =
      (computeDepthSnapshot parseFloat S o₁ o₂).to1Pct side := by
  have hprice : ((sortedLevels parseFloat S' side (o₃.levels side)).head?.map PriceLevel.price) =
      (sortedLevels parseFloat S side (o₁.levels side)).head?.map PriceLevel.price :=
    map_price_head_congr (perm_parseLevels o₃ o₁ side)
  have hvolume : depthTo1Pct parseFloat side (o₄.levels side) =
      depthTo1Pct parseFloat side (o₂.levels side) :=
    funext (depthTo1Pct_perm (perm_parseLevels o₄ o₂ side))
  rw [to1Pct_eq, to1Pct_eq, hvolume]
  have h := congrArg (fun price : Option ℚ => price.elim 0
    (depthTo1Pct parseFloat side (o₂.levels side))) hprice
  simpa only [Option.elim_map, Function.comp_def] using h

theorem to1Pct_le_total (o o' : LoopOrder ob) (side : BookSide) :
    (computeDepthSnapshot parseFloat S o o').to1Pct side ≤
      (computeDepthSnapshot parseFloat S o o').total side := by
  have hperm : (parseLevels parseFloat (o.levels side)).Perm
      (parseLevels parseFloat (o'.levels side)) := perm_parseLevels o o' side
  have hnonneg : 0 ≤ ((parseLevels parseFloat (o'.levels side)).map PriceLevel.size).sum :=
    sum_le_of_sublist (List.nil_sublist _) fun _ hl => size_pos hl
  rw [to1Pct_eq, total_eq, (hperm.map PriceLevel.size).sum_eq]
  cases (sortedLevels parseFloat S side (o.levels side)).head? with
  | none => exact hnonneg
  | some l =>
      simp only [Option.elim_some, depthTo1Pct]
      split
      · exact hnonneg
      · exact sum_le_of_sublist List.filter_sublist fun _ hl => size_pos hl

theorem near_self {best : ℚ} (h : 0 < best) : side.Near best best := by
  have hlow : mkRat 99 100 ≤ 1 := by decide +kernel
  have hhigh : 1 ≤ mkRat 101 100 := by decide +kernel
  cases side with
  | bid => exact ⟨mul_le_of_le_one_right h.le hlow, le_rfl⟩
  | ask => exact ⟨le_rfl, le_mul_of_one_le_right h.le hhigh⟩

/-- The best level is within one percent, when its price is positive. -/
theorem tier_one_le_to1Pct (o o' : LoopOrder ob) (side : BookSide)
    (hpos : ∀ l ∈ parseLevels parseFloat (o.levels side),
      (∀ l' ∈ parseLevels parseFloat (o.levels side),
        side.rank l.price ≤ side.rank l'.price) → 0 < l.price) :
    (computeDepthSnapshot parseFloat S o o').tier side 1 ≤
      (computeDepthSnapshot parseFloat S o o').to1Pct side := by
  rw [to1Pct_eq, tier_eq o o' side 1 (by decide)]
  cases hhead : (sortedLevels parseFloat S side (o.levels side)).head? with
  | none =>
      rw [List.head?_eq_none_iff.mp hhead]
      exact le_rfl
  | some l =>
      obtain ⟨hl, hbest⟩ := head_best hhead
      have hprice : 0 < l.price := hpos l hl hbest
      have hfirst : cumulative (sortedLevels parseFloat S side (o.levels side)) 1 = l.size := by
        rw [← List.cons_head?_tail hhead, cumulative, List.take_one]
        simp
      have hmem : l ∈ (parseLevels parseFloat (o'.levels side)).filter fun l' =>
          side.Near l.price l'.price :=
        List.mem_filter.mpr ⟨(perm_parseLevels o o' side).mem_iff.mp hl,
          decide_eq_true (near_self hprice)⟩
      rw [hfirst, Option.elim_some, depthTo1Pct, if_neg (not_le.mpr hprice)]
      refine List.single_le_sum (fun x hx => ?_) _ (List.mem_map_of_mem hmem)
      obtain ⟨l', hl', rfl⟩ := List.mem_map.mp hx
      exact (size_pos (List.mem_of_mem_filter hl')).le

end Orders

/-! ### Sizes that depend on the price only -/

section Sizes

variable {ob : OrderBook} {side : BookSide}

/-- The levels of one price have one size, also when the price is written in more than one way. -/
def OnePrice (parseFloat : String → Option ℚ) (m : Levels) : Prop :=
  ∀ k k' s s' p, m.lookup k = some s → m.lookup k' = some s' →
    parseFloat k = some p → parseFloat k' = some p → s = s'

/-- The sizes are positive. -/
def Positive (parseFloat : String → Option ℚ) (m : Levels) : Prop :=
  ∀ k s size, m.lookup k = some s → parseFloat s = some size → 0 < size

/-- The best of the prices is positive. -/
def BestPositive (side : BookSide) (levels : List PriceLevel) : Prop :=
  ∀ l ∈ levels, (∀ l' ∈ levels, side.rank l.price ≤ side.rank l'.price) → 0 < l.price

theorem lookup_side {o : LoopOrder ob} {e : Sigma fun _ : String => String}
    (h : e ∈ (o.levels side).entries) : (ob.side side).lookup e.1 = some e.2 := by
  rw [← o.levels_eq, Finmap.lookup_toFinmap]
  exact AList.mem_lookup_iff.mpr h

theorem exists_entry {m : SideOrder} {l : PriceLevel} (h : l ∈ readLevels parseFloat m) :
    ∃ e ∈ m.entries, parseFloat e.1 = some l.price ∧ parseFloat e.2 = some l.size := by
  obtain ⟨e, he, hread⟩ := List.mem_filterMap.mp h
  obtain ⟨price, hprice, hread⟩ := Option.bind_eq_some_iff.mp hread
  obtain ⟨size, hsize, rfl⟩ := Option.map_eq_some_iff.mp hread
  exact ⟨e, he, hprice, hsize⟩

theorem parseLevels_eq_filter (m : SideOrder) :
    parseLevels parseFloat m = (readLevels parseFloat m).filter (0 < ·.size) := by
  rw [parseLevels, readLevels, List.filter_filterMap]
  refine List.filterMap_congr fun e _ => ?_
  cases parseFloat e.1 with
  | none => rfl
  | some price =>
      cases parseFloat e.2 with
      | none => rfl
      | some size =>
          by_cases hsize : size ≤ 0
          · simp [Option.filter, hsize]
          · simp [Option.filter, hsize, not_le.mp hsize]

theorem level_ext (o : LoopOrder ob) (h : OnePrice parseFloat (ob.side side)) :
    ∀ l ∈ readLevels parseFloat (o.levels side), ∀ l' ∈ readLevels parseFloat (o.levels side),
      side.rank l.price = side.rank l'.price → l = l' := by
  intro l hl l' hl' hrank
  have hprice : l.price = l'.price := rank_injective side hrank
  obtain ⟨e, he, hp, hs⟩ := exists_entry hl
  obtain ⟨e', he', hp', hs'⟩ := exists_entry hl'
  have hsize : e.2 = e'.2 :=
    h e.1 e'.1 e.2 e'.2 l.price (lookup_side he) (lookup_side he') hp (hprice ▸ hp')
  rw [hsize, hs'] at hs
  cases l
  cases l'
  exact congrArg₂ PriceLevel.mk hprice (Option.some.inj hs).symm

theorem sortedLevels_congr (o o' : LoopOrder ob) (h : OnePrice parseFloat (ob.side side)) :
    sortedLevels parseFloat S side (o.levels side) =
      sortedLevels parseFloat S' side (o'.levels side) := by
  refine SliceSort.sort_congr (perm_parseLevels o o' side) fun l hl l' hl' => ?_
  rw [parseLevels_eq_filter] at hl hl'
  exact level_ext o h l (List.mem_of_mem_filter hl) l' (List.mem_of_mem_filter hl')

/-- With positive sizes, the snapshot leaves no level out. -/
theorem parseLevels_eq_readLevels (o : LoopOrder ob) (h : Positive parseFloat (ob.side side)) :
    parseLevels parseFloat (o.levels side) = readLevels parseFloat (o.levels side) := by
  rw [parseLevels_eq_filter, List.filter_eq_self]
  intro l hl
  obtain ⟨e, he, -, hsize⟩ := exists_entry hl
  exact decide_eq_true (h e.1 e.2 l.size (lookup_side he) hsize)

theorem topNDepth_name (o : LoopOrder ob) (n : ℕ) (side : BookSide) :
    topNDepth parseFloat S o n side.name = topOfSide parseFloat S (o.levels side) n side := by
  cases side <;> rfl

/-- The tiers are what `TopNDepth` returns. -/
theorem tier_eq_topNDepth (o o' o₃ : LoopOrder ob) (hone : OnePrice parseFloat (ob.side side))
    (hpos : Positive parseFloat (ob.side side)) : ∀ n ∈ tierSizes,
    (computeDepthSnapshot parseFloat S o o').tier side n =
      topNDepth parseFloat S' o₃ n side.name := by
  intro n hn
  have hcongr : sortedLevels parseFloat S side (o.levels side) =
      S'.sort (fun l => side.rank l.price) (readLevels parseFloat (o₃.levels side)) := by
    rw [sortedLevels_congr o o₃ hone, sortedLevels, parseLevels_eq_readLevels o₃ hpos]
  rw [tier_eq o o' side n hn, hcongr, topNDepth_name, topOfSide, cumulative,
    ← List.take_eq_take_min]

/-! ### The best quote -/

/-- A loop over these levels ends with this one. -/
inductive BestOf (parseFloat : String → Option ℚ) (side : BookSide)
    (es : List (Sigma fun _ : String => String)) : Best → Prop
  | none (h : ∀ e ∈ es, parseFloat e.1 = none) : BestOf parseFloat side es {}
  | level {e : Sigma fun _ : String => String} {f : ℚ} (hmem : e ∈ es)
      (hprice : parseFloat e.1 = some f)
      (hbest : ∀ e' ∈ es, ∀ f', parseFloat e'.1 = some f' → side.rank f ≤ side.rank f') :
      BestOf parseFloat side es ⟨some f, e.1, e.2⟩

theorem bestOf_betterLevel {es : List (Sigma fun _ : String => String)} {b : Best}
    (h : BestOf parseFloat side es b) (e : Sigma fun _ : String => String) :
    BestOf parseFloat side (es ++ [e]) (betterLevel parseFloat side b e) := by
  have hmem : e ∈ es ++ [e] := List.mem_append_right es (List.mem_singleton_self e)
  cases hread : parseFloat e.1 with
  | none =>
      have hkeep : betterLevel parseFloat side b e = b := by
        rw [betterLevel, hread]
      rw [hkeep]
      cases h with
      | none hnone =>
          exact .none (List.forall_mem_append.mpr ⟨hnone, List.forall_mem_singleton.mpr hread⟩)
      | level hm hprice hbest =>
          refine .level (List.mem_append_left [e] hm) hprice
            (List.forall_mem_append.mpr ⟨hbest, List.forall_mem_singleton.mpr fun f' hf' => ?_⟩)
          rw [hread] at hf'
          cases hf'
  | some f =>
      have hself : ∀ f', parseFloat e.1 = some f' → side.rank f = side.rank f' := fun f' hf' =>
        congrArg side.rank (Option.some.inj (hread.symm.trans hf'))
      have hstep : betterLevel parseFloat side b e =
          if b.value.all (side.rank f < side.rank ·) then ⟨some f, e.1, e.2⟩ else b := by
        rw [betterLevel, hread]
      rw [hstep]
      cases h with
      | none hnone =>
          refine .level hmem hread (List.forall_mem_append.mpr ⟨fun e' he' f' hf' => ?_,
            List.forall_mem_singleton.mpr fun f' hf' => (hself f' hf').le⟩)
          rw [hnone e' he'] at hf'
          cases hf'
      | @level e₀ f₀ hm hprice hbest =>
          split
          · next htake =>
            have hlt : side.rank f < side.rank f₀ := of_decide_eq_true htake
            exact .level hmem hread (List.forall_mem_append.mpr
              ⟨fun e' he' f' hf' => hlt.le.trans (hbest e' he' f' hf'),
                List.forall_mem_singleton.mpr fun f' hf' => (hself f' hf').le⟩)
          · next hkeep =>
            have hle : side.rank f₀ ≤ side.rank f := not_lt.mp (mt decide_eq_true hkeep)
            exact .level (List.mem_append_left [e] hm) hprice (List.forall_mem_append.mpr
              ⟨hbest, List.forall_mem_singleton.mpr fun f' hf' =>
                hle.trans (hself f' hf').le⟩)

theorem bestOf_bestLevel (m : SideOrder) :
    BestOf parseFloat side m.entries (bestLevel parseFloat side m) := by
  unfold bestLevel
  induction m.entries using List.reverseRecOn with
  | nil => exact .none fun e he => absurd he List.not_mem_nil
  | append_singleton es e ih =>
      rw [List.foldl_append, List.foldl_cons, List.foldl_nil]
      exact bestOf_betterLevel ih e

/-- Two loops over one side end with levels of one size, or both without a level. -/
theorem bestLevel_congr (o o' : LoopOrder ob) (hone : OnePrice parseFloat (ob.side side))
    (hempty : parseFloat "" = none) :
    (bestLevel parseFloat side (o.levels side)).size =
        (bestLevel parseFloat side (o'.levels side)).size ∧
      ((bestLevel parseFloat side (o.levels side)).price = "" ↔
        (bestLevel parseFloat side (o'.levels side)).price = "") := by
  have hperm := perm_entries o o' side
  have hne : ∀ {k : String} {f : ℚ}, parseFloat k = some f → k ≠ "" := by
    rintro k f hk rfl
    rw [hempty] at hk
    cases hk
  have hfirst : BestOf parseFloat side (o.levels side).entries
      (bestLevel parseFloat side (o.levels side)) := bestOf_bestLevel (o.levels side)
  have hsecond : BestOf parseFloat side (o'.levels side).entries
      (bestLevel parseFloat side (o'.levels side)) := bestOf_bestLevel (o'.levels side)
  revert hfirst hsecond
  generalize bestLevel parseFloat side (o.levels side) = b
  generalize bestLevel parseFloat side (o'.levels side) = b'
  intro hfirst hsecond
  cases hfirst with
  | none hnone =>
      cases hsecond with
      | none => exact ⟨rfl, Iff.rfl⟩
      | @level e' f' hmem' hprice' hbest' =>
          rw [hnone e' (hperm.mem_iff.mpr hmem')] at hprice'
          cases hprice'
  | @level e f hmem hprice hbest =>
      cases hsecond with
      | none hnone =>
          rw [hnone e (hperm.mem_iff.mp hmem)] at hprice
          cases hprice
      | @level e' f' hmem' hprice' hbest' =>
          have hrank : side.rank f = side.rank f' :=
            le_antisymm (hbest e' (hperm.mem_iff.mpr hmem') f' hprice')
              (hbest' e (hperm.mem_iff.mp hmem) f hprice)
          obtain rfl := rank_injective side hrank
          exact ⟨hone e.1 e'.1 e.2 e'.2 f (lookup_side hmem) (lookup_side hmem') hprice hprice',
            iff_of_false (hne hprice) (hne hprice')⟩

/-- A side without levels has no best price. -/
theorem bestQuote_eq (o : LoopOrder ob) :
    bestQuote parseFloat o =
      if (bestLevel parseFloat .bid (o.levels .bid)).price = "" ∨
          (bestLevel parseFloat .ask (o.levels .ask)).price = "" then ⟨"", "", "", ""⟩
      else ⟨(bestLevel parseFloat .bid (o.levels .bid)).price,
        (bestLevel parseFloat .bid (o.levels .bid)).size,
        (bestLevel parseFloat .ask (o.levels .ask)).price,
        (bestLevel parseFloat .ask (o.levels .ask)).size⟩ := by
  have hnil : ∀ (side : BookSide), (o.levels side).entries = [] →
      (bestLevel parseFloat side (o.levels side)).price = "" := by
    intro side h
    rw [bestLevel, h]
    rfl
  unfold bestQuote
  split
  · next h => rw [if_pos (h.imp (hnil .bid) (hnil .ask))]
  · rfl

theorem bestQuote_size_congr (o o' : LoopOrder ob)
    (hone : ∀ side, OnePrice parseFloat (ob.side side)) (hempty : parseFloat "" = none)
    (side : BookSide) :
    (bestQuote parseFloat o).size side = (bestQuote parseFloat o').size side := by
  obtain ⟨hbid, hbid'⟩ := bestLevel_congr o o' (hone .bid) hempty
  obtain ⟨hask, hask'⟩ := bestLevel_congr o o' (hone .ask) hempty
  rw [bestQuote_eq, bestQuote_eq]
  simp only [hbid', hask']
  split
  · rfl
  · cases side with
    | bid => exact hbid
    | ask => exact hask

end Sizes

/-! ### The views agree -/

/-- What the views of a book have in common, whatever the orders of the loops and the sorts do. -/
structure ViewsAgree (parseFloat : String → Option ℚ) (ob : OrderBook) : Prop where
  increasing : ∀ (S : SliceSort PriceLevel ℚ) (o o' : LoopOrder ob) (side : BookSide),
    ∀ n ∈ tierSizes, ∀ n' ∈ tierSizes, n ≤ n' →
      (computeDepthSnapshot parseFloat S o o').tier side n ≤
        (computeDepthSnapshot parseFloat S o o').tier side n'
  le_total : ∀ (S : SliceSort PriceLevel ℚ) (o o' : LoopOrder ob) (side : BookSide),
    ∀ n ∈ tierSizes, (computeDepthSnapshot parseFloat S o o').tier side n ≤
      (computeDepthSnapshot parseFloat S o o').total side
  to1Pct_le : ∀ (S : SliceSort PriceLevel ℚ) (o o' : LoopOrder ob) (side : BookSide),
    (computeDepthSnapshot parseFloat S o o').to1Pct side ≤
      (computeDepthSnapshot parseFloat S o o').total side
  le_to1Pct : ∀ (S : SliceSort PriceLevel ℚ) (o o' : LoopOrder ob) (side : BookSide),
    BestPositive side (parseLevels parseFloat (o.levels side)) →
      (computeDepthSnapshot parseFloat S o o').tier side 1 ≤
        (computeDepthSnapshot parseFloat S o o').to1Pct side
  /-- These need no condition. -/
  same_sums : ∀ (S S' : SliceSort PriceLevel ℚ) (o₁ o₂ o₃ o₄ : LoopOrder ob) (side : BookSide),
    (computeDepthSnapshot parseFloat S' o₃ o₄).total side =
        (computeDepthSnapshot parseFloat S o₁ o₂).total side ∧
      (computeDepthSnapshot parseFloat S' o₃ o₄).to1Pct side =
        (computeDepthSnapshot parseFloat S o₁ o₂).to1Pct side
  same_tiers : ∀ (S S' : SliceSort PriceLevel ℚ) (o₁ o₂ o₃ o₄ : LoopOrder ob) (side : BookSide),
    OnePrice parseFloat (ob.side side) → ∀ n ∈ tierSizes,
      (computeDepthSnapshot parseFloat S' o₃ o₄).tier side n =
        (computeDepthSnapshot parseFloat S o₁ o₂).tier side n
  topNDepth : ∀ (S S' : SliceSort PriceLevel ℚ) (o₁ o₂ o₃ : LoopOrder ob) (side : BookSide),
    OnePrice parseFloat (ob.side side) → Positive parseFloat (ob.side side) → ∀ n ∈ tierSizes,
      (computeDepthSnapshot parseFloat S o₁ o₂).tier side n =
        Candle.topNDepth parseFloat S' o₃ n side.name
  same_quote : ∀ (o o' : LoopOrder ob), (∀ side, OnePrice parseFloat (ob.side side)) →
    ∀ side, (bestQuote parseFloat o).size side = (bestQuote parseFloat o').size side

/-- The numbers of the texts below. -/
def numberOf (s : String) : Option ℚ :=
  [("100", mkRat 100 1), ("100.0", mkRat 100 1), ("99", mkRat 99 1), ("101", mkRat 101 1),
    ("0.0", 0), ("1", 1), ("2", mkRat 2 1), ("5", mkRat 5 1)].lookup s

/-- The book that these messages leave. -/
def bookAfter (ms : List ParsedMessage) : OrderBook :=
  EventMachine.final OrderBook.bookStep (.new "bybit" "BTC-USDT" 1000) ms

/-- Leaves a level of size zero in the book, since its text is not `"0"`. -/
def zeroLevel : List ParsedMessage :=
  [.snapshot ⟨1, 0⟩, .tick ⟨2, 0, "100", "0.0", "buy", 1⟩, .tick ⟨3, 0, "99", "5", "buy", 1⟩]

/-- An order of its loops. -/
def zeroLevelOrder : BookSide → SideOrder
  | .bid => [⟨"100", "0.0"⟩, ⟨"99", "5"⟩].toAList
  | .ask => ∅

theorem toFinmap_zeroLevelOrder (side : BookSide) :
    (zeroLevelOrder side).toFinmap = (bookAfter zeroLevel).side side := by
  cases side <;> decide +kernel

/-- Leaves two bids at 100, of sizes 1 and 2. -/
def twoTexts : List ParsedMessage :=
  [.snapshot ⟨1, 0⟩, .tick ⟨2, 0, "100", "1", "buy", 1⟩, .tick ⟨3, 0, "100.0", "2", "buy", 1⟩,
    .tick ⟨4, 0, "101", "5", "sell", 1⟩]

/-- Two orders of its loops. -/
def twoTextsOrder (swapped : Bool) : BookSide → SideOrder
  | .bid =>
      if swapped then [⟨"100.0", "2"⟩, ⟨"100", "1"⟩].toAList
      else [⟨"100", "1"⟩, ⟨"100.0", "2"⟩].toAList
  | .ask => [⟨"101", "5"⟩].toAList

theorem toFinmap_twoTextsOrder (swapped : Bool) (side : BookSide) :
    (twoTextsOrder swapped side).toFinmap = (bookAfter twoTexts).side side := by
  cases swapped <;> cases side <;> decide +kernel

end MagnumOpus.Candle
