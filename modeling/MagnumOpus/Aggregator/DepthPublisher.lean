import MagnumOpus.Aggregator.Exchange
import MagnumOpus.Lib.JsonMarshal
import MagnumOpus.Lib.KeyedSum
import MagnumOpus.Lib.LessSort

/-! # The publisher of the book

`Publisher.Publish` (`pubsub/publisher.go`): after an update the best levels of each side go out as
a JSON object, with the mid price, the spread and the volume of the update.

The levels come from a loop over a map, in any order, and are put in order by a sort that need not
be stable.

* **Levels.** A side goes out as its best levels (`best_sortedLevels`): at most 20 of those whose
  price is a number, in order unless one is not a number in the sense of floating point.
* **Orders.** When the prices of a side differ as numbers, no order matters (`sortedLevels_congr`).
* **Failure.** Nothing goes out when the mid price, the spread or a volume is not finite
  (`payload_isSome_iff`). -/

namespace MagnumOpus.Aggregator.DepthPublisher

open JsonDecode (JsonValue)
open JsonMarshal (IsLiteral Readable isLiteral_formatInt marshal)
open JsonScan (Bytes)

/-- 64-bit floating-point numbers. -/
structure Floats where
  F64 : Type
  /-- What the number is, with the infinities; a NaN is none. -/
  value : F64 → Option (WithBot (WithTop ℚ))
  zero : F64
  add : F64 → F64 → F64
  sub : F64 → F64 → F64
  half : F64 → F64
  /-- `ParseFloat` without an error. -/
  parseFloat : String → Option F64
  /-- The number in JSON, which NaN and the infinities have not. -/
  literal : F64 → Option String
  isLiteral_of_literal : ∀ {x text}, literal x = some text → IsLiteral text

section

variable (N : Floats)

/-- `<`, which is false on a NaN. -/
def Floats.less (x y : N.F64) : Bool :=
  match N.value x, N.value y with
  | some a, some b => a < b
  | _, _ => false

/-- A price with the texts of its level. -/
structure PriceLevel where
  price : N.F64
  priceStr : String
  sizeStr : String

def maxDepthLevels : ℕ := 20

variable {N} in
/-- Whether a level stands before another. -/
def before (descending : Bool) (i j : PriceLevel N) : Bool :=
  if descending then N.less j.price i.price else N.less i.price j.price

/-- The levels of a side with a size and a price. -/
def levelsOf (m : KeyedSum.Entries String String) : List (PriceLevel N) :=
  m.entries.filterMap fun e =>
    if e.2 = "0" ∨ e.2 = "" then none else (N.parseFloat e.1).map fun price => ⟨price, e.1, e.2⟩

def sortedLevels (S : LessSort (PriceLevel N)) (m : KeyedSum.Entries String String)
    (descending : Bool) : List (List String) :=
  ((S.sort (before descending) (levelsOf N m)).take maxDepthLevels).map fun l =>
    [l.priceStr, l.sizeStr]

/-- The price of the first level. -/
def bestPrice (side : List (List String)) : Option N.F64 :=
  (side.head?.bind List.head?).bind N.parseFloat

def midAndSpread (bids asks : List (List String)) : N.F64 × N.F64 :=
  match bestPrice N bids, bestPrice N asks with
  | some bestBid, some bestAsk => (N.half (N.add bestBid bestAsk), N.sub bestAsk bestBid)
  | _, _ => (N.zero, N.zero)

/-- The volume of a tick on a side. -/
def intervalVolume (tick : Tick) (side : String) : N.F64 :=
  match N.parseFloat tick.size with
  | some size => if tick.side = side then size else N.zero
  | none => N.zero

/-- A side in JSON. -/
def levelsJson (side : List (List String)) : JsonValue :=
  .arr (side.map fun pair => .arr (pair.map .str))

/-- The object that is published, with its keys in the order of `Marshal`. -/
def payload (exch : String) (sym : Symbol) (bids asks : List (List String)) (tick : Tick) :
    Option JsonValue := do
  let intervalBid := intervalVolume N tick "bid"
  let intervalAsk := intervalVolume N tick "ask"
  let askVolume ← N.literal intervalAsk
  let bidVolume ← N.literal intervalBid
  let totalVolume ← N.literal (N.add intervalBid intervalAsk)
  let midPrice ← N.literal (midAndSpread N bids asks).1
  let spread ← N.literal (midAndSpread N bids asks).2
  some (.obj [("asks", levelsJson asks), ("bids", levelsJson bids), ("exchange", .str exch),
    ("interval_ask_volume", .num askVolume), ("interval_bid_volume", .num bidVolume),
    ("interval_total_volume", .num totalVolume), ("mid_price", .num midPrice),
    ("spread", .num spread), ("symbol", .str sym), ("ts_ns", .num (Strconv.formatInt tick.tsLocal)),
    ("update_count", .num "1")])

/-- The channel and the message. -/
def publish (S : LessSort (PriceLevel N)) (exch : String) (sym : Symbol)
    (bids asks : KeyedSum.Entries String String) (tick : Tick) : Option (String × Bytes) := do
  let v ← payload N exch sym (sortedLevels N S bids true) (sortedLevels N S asks false) tick
  some ("orderbook:" ++ exch ++ ":" ++ sym, marshal v)

end

variable {N : Floats}

/-! ### The order of the levels -/

/-- The prices are numbers, also in the sense of floating point. -/
def Comparable (levels : List (PriceLevel N)) : Prop := ∀ l ∈ levels, (N.value l.price).isSome

theorem less_eq {x y : N.F64} {a b : WithBot (WithTop ℚ)} (hx : N.value x = some a)
    (hy : N.value y = some b) : N.less x y = decide (a < b) := by
  rw [Floats.less, hx, hy]

/-- Which of two levels stands first is a matter of their numbers. -/
theorem before_iff {descending : Bool} {i j : PriceLevel N} {a b : WithBot (WithTop ℚ)}
    (hi : N.value i.price = some a) (hj : N.value j.price = some b) :
    before descending i j ↔ if descending then b < a else a < b := by
  cases descending with
  | true => simp [before, less_eq hj hi]
  | false => simp [before, less_eq hi hj]

theorem weakOrderOn_before {levels : List (PriceLevel N)} (h : Comparable levels)
    (descending : Bool) : WeakOrderOn (before descending) levels where
  asymm := by
    intro i hi j hj hij
    obtain ⟨a, ha⟩ := Option.isSome_iff_exists.mp (h i hi)
    obtain ⟨b, hb⟩ := Option.isSome_iff_exists.mp (h j hj)
    rw [before_iff ha hb] at hij
    rw [before_iff hb ha]
    cases descending with
    | true => exact lt_asymm hij
    | false => exact lt_asymm hij
  trans := by
    intro i hi j hj k hk hij hjk
    obtain ⟨a, ha⟩ := Option.isSome_iff_exists.mp (h i hi)
    obtain ⟨b, hb⟩ := Option.isSome_iff_exists.mp (h j hj)
    obtain ⟨c, hc⟩ := Option.isSome_iff_exists.mp (h k hk)
    rw [before_iff hb ha] at hij
    rw [before_iff hc hb] at hjk
    rw [before_iff hc ha]
    cases descending with
    | true => exact not_lt.mpr ((not_lt.mp hjk).trans (not_lt.mp hij))
    | false => exact not_lt.mpr ((not_lt.mp hij).trans (not_lt.mp hjk))

/-! ### The levels that go out -/

/-- Levels of a side with no better ones among the others, in order. -/
structure Best (descending : Bool) (levels top : List (PriceLevel N)) : Prop where
  length : top.length = min maxDepthLevels levels.length
  others : ∃ rest, (top ++ rest).Perm levels ∧
    (Comparable levels → ∀ l ∈ top, ∀ m ∈ rest, ¬ before descending m l)
  inOrder : Comparable levels → InOrder (before descending) top

/-- **A side goes out as its best levels.** -/
theorem best_sortedLevels (S : LessSort (PriceLevel N)) (m : KeyedSum.Entries String String)
    (descending : Bool) : ∃ top, Best descending (levelsOf N m) top ∧
      sortedLevels N S m descending = top.map fun l => [l.priceStr, l.sizeStr] := by
  let sorted := S.sort (before descending) (levelsOf N m)
  have hperm : sorted.Perm (levelsOf N m) := S.perm _ _
  refine ⟨sorted.take maxDepthLevels, ⟨?_, ⟨sorted.drop maxDepthLevels, ?_, ?_⟩, ?_⟩, rfl⟩
  · rw [List.length_take, hperm.length_eq]
  · rwa [List.take_append_drop]
  · intro h l hl m hm
    exact LessSort.not_less_of_mem_take (weakOrderOn_before h descending) hl hm
  · intro h
    exact (S.sorted _ _ (weakOrderOn_before h descending)).sublist (List.take_sublist _ _)

/-- The texts of a side's prices denote numbers that differ. -/
def DistinctPrices (levels : List (PriceLevel N)) : Prop :=
  ∀ l ∈ levels, ∀ l' ∈ levels, N.value l.price = N.value l'.price → l = l'

theorem levelsOf_perm {m m' : KeyedSum.Entries String String} (h : m.toFinmap = m'.toFinmap) :
    (levelsOf N m).Perm (levelsOf N m') :=
  (AList.toFinmap_eq.mp h).filterMap _

/-- **When the prices of a side differ as numbers, neither the order of the loop nor the sort
matters.** -/
theorem sortedLevels_congr {S S' : LessSort (PriceLevel N)} {m m' : KeyedSum.Entries String String}
    (h : m.toFinmap = m'.toFinmap) (hcomparable : Comparable (levelsOf N m))
    (hdistinct : DistinctPrices (levelsOf N m)) (descending : Bool) :
    sortedLevels N S m descending = sortedLevels N S' m' descending := by
  have hsort : S.sort (before descending) (levelsOf N m) =
      S'.sort (before descending) (levelsOf N m') := by
    refine LessSort.sort_congr (weakOrderOn_before hcomparable descending) (levelsOf_perm h) ?_
    intro i hi j hj hij hji
    obtain ⟨a, ha⟩ := Option.isSome_iff_exists.mp (hcomparable i hi)
    obtain ⟨b, hb⟩ := Option.isSome_iff_exists.mp (hcomparable j hj)
    rw [before_iff ha hb] at hij
    rw [before_iff hb ha] at hji
    have hab : a = b := by
      cases descending with
      | true => exact le_antisymm (not_lt.mp hij) (not_lt.mp hji)
      | false => exact le_antisymm (not_lt.mp hji) (not_lt.mp hij)
    exact hdistinct i hi j hj (by rw [ha, hb, hab])
  rw [sortedLevels, sortedLevels, hsort]

/-! ### The message -/

/-- Every level that goes out is a price with a size. -/
theorem readable_levelsJson (depth : ℕ) (side : List (List String)) :
    Readable (depth + 2) (levelsJson side) := by
  refine .arr fun v hv => ?_
  obtain ⟨pair, -, rfl⟩ := List.mem_map.mp hv
  refine .arr fun w hw => ?_
  obtain ⟨text, -, rfl⟩ := List.mem_map.mp hw
  exact .str _ text

theorem readable_payload {exch : String} {sym : Symbol} {bids asks : List (List String)}
    {tick : Tick}
    {v : JsonValue} (h : payload N exch sym bids asks tick = some v) (depth : ℕ) :
    Readable (depth + 3) v := by
  obtain ⟨askVolume, hask, h⟩ := Option.bind_eq_some_iff.mp h
  obtain ⟨bidVolume, hbid, h⟩ := Option.bind_eq_some_iff.mp h
  obtain ⟨totalVolume, htotal, h⟩ := Option.bind_eq_some_iff.mp h
  obtain ⟨midPrice, hmid, h⟩ := Option.bind_eq_some_iff.mp h
  obtain ⟨spread, hspread, h⟩ := Option.bind_eq_some_iff.mp h
  obtain rfl := Option.some.inj h
  have hnum : ∀ {x text}, N.literal x = some text → Readable (depth + 2) (.num text) :=
    fun h => .num _ (N.isLiteral_of_literal h)
  refine .obj ?_
  simp only [List.forall_mem_cons]
  exact ⟨readable_levelsJson _ _, readable_levelsJson _ _, .str _ _, hnum hask, hnum hbid,
    hnum htotal, hnum hmid, hnum hspread, .str _ _, .num _ (isLiteral_formatInt _),
    .num _ (by decide), fun _ h => absurd h List.not_mem_nil⟩

/-- The numbers of a message. -/
def numbers (bids asks : List (List String)) (tick : Tick) : List N.F64 :=
  [intervalVolume N tick "ask", intervalVolume N tick "bid",
    N.add (intervalVolume N tick "bid") (intervalVolume N tick "ask"),
    (midAndSpread N bids asks).1, (midAndSpread N bids asks).2]

/-- **A message goes out when its numbers are finite.** -/
theorem payload_isSome_iff (exch : String) (sym : Symbol) (bids asks : List (List String))
    (tick : Tick) : (payload N exch sym bids asks tick).isSome ↔
      ∀ x ∈ numbers (N := N) bids asks tick, (N.literal x).isSome := by
  unfold payload
  simp only [numbers, List.forall_mem_cons, Option.bind_eq_bind]
  generalize N.literal (intervalVolume N tick "ask") = ask
  generalize N.literal (intervalVolume N tick "bid") = bid
  generalize N.literal (N.add _ _) = total
  generalize N.literal (midAndSpread N bids asks).1 = mid
  generalize N.literal (midAndSpread N bids asks).2 = spread
  cases ask with
  | none => simp
  | some ask =>
  cases bid with
  | none => simp
  | some bid =>
  cases total with
  | none => simp
  | some total =>
  cases mid with
  | none => simp
  | some mid => cases spread <;> simp

end MagnumOpus.Aggregator.DepthPublisher
