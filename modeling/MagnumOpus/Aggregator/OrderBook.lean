import Mathlib.Data.List.Sort
import MagnumOpus.Lib.EventMachine
import MagnumOpus.Lib.KeyedWrites

/-! # The aggregator's order book

`OrderBook` is the book of one symbol: the levels of each side, from the price text to the size
text, and the sequence number of the last update (`orderbook.go`).

* **The code.** `apply` drops a delta whose sequence is not above `lastSeq` and one without a
  price; `applySnapshot` replaces the whole state.
* **What a level change means.** `change` is the effect of a delta on a book that does not look at
  sequence numbers: `apply` is `change` behind the sequence test (`apply_eq`).
* **Batches.** `Heeded ob ds` says that no delta of `ds` is dropped at its turn for its sequence.
  It holds exactly when the sequences of the deltas that have a price rise
  (`heeded_iff_isChain`), and then applying is changing (`applyAll_eq_changeAll`).
* **Levels.** The levels of one side after a batch of changes are the earlier ones overlaid by the
  batch's writes to that side (`levels_changeAll`). -/

namespace MagnumOpus.Aggregator

open EventMachine KeyedWrites

/-- The bid or the ask side of the order book.  The source's `Side` is a byte, of which only these
two values are ever built. -/
inductive Side where
  | bid
  | ask
deriving DecidableEq, Repr

/-- One level change from the exchange.  Prices and sizes are the texts of the wire. -/
structure Delta where
  seq : UInt64
  side : Side
  price : String
  size : String
  tsExchange : Int64
deriving DecidableEq, Repr

/-- The levels of one side, from price to size. -/
abbrev Levels := Map String String

structure OrderBook where
  lastSeq : UInt64
  bids : Levels
  asks : Levels
deriving DecidableEq

namespace OrderBook

/-- An empty book. -/
def new : OrderBook := ⟨0, ∅, ∅⟩

/-- The levels of a side. -/
def levels (ob : OrderBook) : Side → Levels
  | .bid => ob.bids
  | .ask => ob.asks

/-- What a size text makes of its level: `"0"` and `""` remove it. -/
def levelSize (size : String) : Option String :=
  if size = "0" ∨ size = "" then none else some size

/-- Sets or removes one level. -/
def setLevel (ob : OrderBook) (side : Side) (price size : String) : OrderBook :=
  match side with
  | .bid => { ob with bids := write ob.bids price (levelSize size) }
  | .ask => { ob with asks := write ob.asks price (levelSize size) }

/-- Applies a delta.  Out-of-order and duplicate deltas are silently discarded, and so are those
without a price. -/
def apply (ob : OrderBook) (d : Delta) : OrderBook :=
  if d.seq ≤ ob.lastSeq then ob
  else if d.price = "" then ob
  else { ob with lastSeq := d.seq }.setLevel d.side d.price d.size

/-- Replaces the whole state by a snapshot. -/
def applySnapshot (_ : OrderBook) (seq : UInt64) (bids asks : Levels) : OrderBook :=
  ⟨seq, bids, asks⟩

/-- The effect of a level change, whatever its sequence number. -/
def change (ob : OrderBook) (d : Delta) : OrderBook :=
  if d.price = "" then ob
  else { ob with lastSeq := d.seq }.setLevel d.side d.price d.size

/-- Applies the deltas in order. -/
def applyAll (ob : OrderBook) (ds : List Delta) : OrderBook := ds.foldl apply ob

/-- Performs the level changes in order. -/
def changeAll (ob : OrderBook) (ds : List Delta) : OrderBook := ds.foldl change ob

@[simp] theorem applyAll_nil (ob : OrderBook) : ob.applyAll [] = ob := rfl

@[simp] theorem applyAll_cons (ob : OrderBook) (d : Delta) (ds : List Delta) :
    ob.applyAll (d :: ds) = (ob.apply d).applyAll ds := rfl

@[simp] theorem changeAll_nil (ob : OrderBook) : ob.changeAll [] = ob := rfl

@[simp] theorem changeAll_cons (ob : OrderBook) (d : Delta) (ds : List Delta) :
    ob.changeAll (d :: ds) = (ob.change d).changeAll ds := rfl

theorem applyAll_append (ob : OrderBook) (ds ds' : List Delta) :
    ob.applyAll (ds ++ ds') = (ob.applyAll ds).applyAll ds' := List.foldl_append

/-- `apply` is `change` behind the sequence test. -/
theorem apply_eq (ob : OrderBook) (d : Delta) :
    ob.apply d = if d.seq ≤ ob.lastSeq then ob else ob.change d := rfl

theorem apply_of_le {ob : OrderBook} {d : Delta} (h : d.seq ≤ ob.lastSeq) : ob.apply d = ob := by
  rw [apply_eq, if_pos h]

theorem apply_of_lt {ob : OrderBook} {d : Delta} (h : ob.lastSeq < d.seq) :
    ob.apply d = ob.change d := by
  rw [apply_eq, if_neg (UInt64.not_le.mpr h)]

theorem change_of_empty {ob : OrderBook} {d : Delta} (h : d.price = "") : ob.change d = ob := by
  rw [change, if_pos h]

theorem apply_of_empty {ob : OrderBook} {d : Delta} (h : d.price = "") : ob.apply d = ob := by
  rw [apply_eq, change_of_empty h, ite_self]

@[simp] theorem lastSeq_setLevel (ob : OrderBook) (side : Side) (price size : String) :
    (ob.setLevel side price size).lastSeq = ob.lastSeq := by
  cases side <;> rfl

theorem lastSeq_change {ob : OrderBook} {d : Delta} (h : d.price ≠ "") :
    (ob.change d).lastSeq = d.seq := by
  rw [change, if_neg h, lastSeq_setLevel]

/-- A book never goes back. -/
theorem lastSeq_le_apply (ob : OrderBook) (d : Delta) : ob.lastSeq ≤ (ob.apply d).lastSeq := by
  by_cases hseq : d.seq ≤ ob.lastSeq
  · rw [apply_of_le hseq]
    exact UInt64.le_refl _
  · rw [apply_of_lt (UInt64.not_le.mp hseq)]
    by_cases hp : d.price = ""
    · rw [change_of_empty hp]
      exact UInt64.le_refl _
    · rw [lastSeq_change hp]
      exact UInt64.le_of_lt (UInt64.not_le.mp hseq)

/-! ### Batches of level changes -/

/-- The deltas that name a level. -/
def priced (ds : List Delta) : List Delta := ds.filter fun d => d.price ≠ ""

theorem priced_cons_of_empty {d : Delta} (h : d.price = "") (ds : List Delta) :
    priced (d :: ds) = priced ds :=
  List.filter_cons_of_neg (by simpa using h)

theorem priced_cons_of_ne {d : Delta} (h : d.price ≠ "") (ds : List Delta) :
    priced (d :: ds) = d :: priced ds :=
  List.filter_cons_of_pos (by simpa using h)

/-- No delta of the batch that names a level is dropped when its turn comes. -/
def Heeded : OrderBook → List Delta → Prop
  | _, [] => True
  | ob, d :: ds => (d.price ≠ "" → ob.lastSeq < d.seq) ∧ Heeded (ob.apply d) ds

/-- **Nothing is dropped exactly when the sequences rise**, from the book's own onwards. -/
theorem heeded_iff_isChain : ∀ (ob : OrderBook) (ds : List Delta),
    ob.Heeded ds ↔ (ob.lastSeq :: (priced ds).map Delta.seq).IsChain (· < ·)
  | ob, [] => by simp [Heeded, priced]
  | ob, d :: ds => by
      have ih := heeded_iff_isChain (ob.apply d) ds
      rw [Heeded, ih]
      by_cases hp : d.price = ""
      · rw [apply_of_empty hp, priced_cons_of_empty hp]
        simp only [hp, ne_eq, not_true_eq_false, false_imp_iff, true_and]
      · rw [priced_cons_of_ne hp, List.map_cons, List.isChain_cons_cons]
        by_cases hlt : ob.lastSeq < d.seq
        · rw [apply_of_lt hlt, lastSeq_change hp]
          exact and_congr ⟨fun _ => hlt, fun h _ => h⟩ Iff.rfl
        · exact ⟨fun h => absurd (h.1 hp) hlt, fun h => absurd h.1 hlt⟩

/-- Applying a batch of which nothing is dropped is performing its changes. -/
theorem applyAll_eq_changeAll : ∀ {ob : OrderBook} {ds : List Delta},
    ob.Heeded ds → ob.applyAll ds = ob.changeAll ds
  | _, [], _ => rfl
  | ob, d :: ds, h => by
      have hstep : ob.apply d = ob.change d := by
        by_cases hp : d.price = ""
        · rw [apply_of_empty hp, change_of_empty hp]
        · exact apply_of_lt (h.1 hp)
      rw [applyAll_cons, changeAll_cons, applyAll_eq_changeAll h.2, hstep]

/-- Deltas at or below the book's sequence leave it as it is, all of them. -/
theorem applyAll_of_forall_le {ob : OrderBook} : ∀ {ds : List Delta},
    (∀ d ∈ ds, d.seq ≤ ob.lastSeq) → ob.applyAll ds = ob
  | [], _ => rfl
  | d :: ds, h => by
      rw [applyAll_cons, apply_of_le (h d List.mem_cons_self),
        applyAll_of_forall_le fun d' hd' => h d' (List.mem_cons_of_mem d hd')]

/-! ### The levels after a batch -/

/-- The write a delta makes to the levels of `side`, if it makes one. -/
def writesTo (side : Side) (d : Delta) : List (String × Option String) :=
  if d.side = side ∧ d.price ≠ "" then [(d.price, levelSize d.size)] else []

theorem levels_setLevel (ob : OrderBook) (s side : Side) (price size : String) :
    (ob.setLevel s price size).levels side =
      if s = side then write (ob.levels side) price (levelSize size) else ob.levels side := by
  cases s <;> cases side <;> rfl

theorem levels_change (ob : OrderBook) (side : Side) (d : Delta) :
    (ob.change d).levels side = writes (ob.levels side) (writesTo side d) := by
  by_cases hp : d.price = ""
  · simp [change_of_empty hp, writesTo, hp]
  · rw [change, if_neg hp, levels_setLevel]
    by_cases hs : d.side = side
    · rw [if_pos hs, writesTo, if_pos ⟨hs, hp⟩, writes_cons, writes_nil]
      cases side <;> rfl
    · rw [if_neg hs, writesTo, if_neg (fun h => hs h.1), writes_nil]
      cases side <;> rfl

/-- **The levels after a batch of changes** are the earlier ones overlaid by its writes. -/
theorem levels_changeAll (side : Side) : ∀ (ob : OrderBook) (ds : List Delta),
    (ob.changeAll ds).levels side = writes (ob.levels side) (ds.flatMap (writesTo side))
  | _, [] => rfl
  | ob, d :: ds => by
      rw [changeAll_cons, levels_changeAll side, levels_change, List.flatMap_cons, writes_append]

end OrderBook

end MagnumOpus.Aggregator
