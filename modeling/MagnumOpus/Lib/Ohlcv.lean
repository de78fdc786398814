import Mathlib.Algebra.BigOperators.Group.List.Basic
import Mathlib.Algebra.Order.Monoid.Defs
import Mathlib.Order.Lattice

/-! # Summaries of a price series

An `Ohlcv` says of a series of trades its first, highest, lowest and last price, the volume, the
volume at price, the volume of the purchases, and the number of trades.  `a + b` is the summary of
the series of `a` followed by that of `b`; with the summary of the empty series this is a monoid, so
the summary of a series that is cut into pieces is the `List.sum` of the pieces' summaries.  The
fields of such a sum are those one expects: the first price is the first that there is
(`openPrice_sum`), the highest the maximum of those that there are (`high_sum`), the volume the sum
(`volume_sum`).

Volumes and prices are of one ordered type `K`; the count is of any additive monoid `N`, such as a
machine integer. -/

namespace MagnumOpus

@[ext]
structure Ohlcv (K N : Type*) where
  openPrice : Option K
  high : Option K
  low : Option K
  close : Option K
  volume : K
  quoteVolume : K
  buyVolume : K
  tradeCount : N
deriving DecidableEq

namespace Ohlcv

section Merge

variable {α : Type*} {f : α → α → α}

theorem merge_assoc (hf : ∀ a b c, f (f a b) c = f a (f b c)) (a b c : Option α) :
    Option.merge f (Option.merge f a b) c = Option.merge f a (Option.merge f b c) := by
  cases a <;> cases b <;> cases c <;> simp [hf]

theorem some_merge (a : α) (b : Option α) : Option.merge f (some a) b = some (b.elim a (f a)) := by
  cases b <;> rfl

end Merge

section Zero

variable {K N : Type*} [Zero K] [Zero N]

/-- Nothing has been traded. -/
instance : Zero (Ohlcv K N) := ⟨⟨none, none, none, none, 0, 0, 0, 0⟩⟩

@[simp] theorem zero_openPrice : (0 : Ohlcv K N).openPrice = none := rfl
@[simp] theorem zero_high : (0 : Ohlcv K N).high = none := rfl
@[simp] theorem zero_low : (0 : Ohlcv K N).low = none := rfl
@[simp] theorem zero_close : (0 : Ohlcv K N).close = none := rfl
@[simp] theorem zero_volume : (0 : Ohlcv K N).volume = 0 := rfl
@[simp] theorem zero_quoteVolume : (0 : Ohlcv K N).quoteVolume = 0 := rfl
@[simp] theorem zero_buyVolume : (0 : Ohlcv K N).buyVolume = 0 := rfl
@[simp] theorem zero_tradeCount : (0 : Ohlcv K N).tradeCount = 0 := rfl

end Zero

variable {K N : Type*} [LinearOrder K] [AddMonoid K] [AddMonoid N]

/-- One series after the other. -/
instance : Add (Ohlcv K N) where
  add a b :=
    { openPrice := a.openPrice.or b.openPrice
      high := a.high.merge max b.high
      low := a.low.merge min b.low
      close := b.close.or a.close
      volume := a.volume + b.volume
      quoteVolume := a.quoteVolume + b.quoteVolume
      buyVolume := a.buyVolume + b.buyVolume
      tradeCount := a.tradeCount + b.tradeCount }

variable (a b c : Ohlcv K N)

@[simp] theorem add_openPrice : (a + b).openPrice = a.openPrice.or b.openPrice := rfl
@[simp] theorem add_high : (a + b).high = a.high.merge max b.high := rfl
@[simp] theorem add_low : (a + b).low = a.low.merge min b.low := rfl
@[simp] theorem add_close : (a + b).close = b.close.or a.close := rfl
@[simp] theorem add_volume : (a + b).volume = a.volume + b.volume := rfl
@[simp] theorem add_quoteVolume : (a + b).quoteVolume = a.quoteVolume + b.quoteVolume := rfl
@[simp] theorem add_buyVolume : (a + b).buyVolume = a.buyVolume + b.buyVolume := rfl
@[simp] theorem add_tradeCount : (a + b).tradeCount = a.tradeCount + b.tradeCount := rfl

instance : AddMonoid (Ohlcv K N) where
  nsmul := nsmulRec
  add_assoc a b c := by
    ext1
    · exact Option.or_assoc
    · exact merge_assoc max_assoc _ _ _
    · exact merge_assoc min_assoc _ _ _
    · exact Option.or_assoc.symm
    all_goals exact add_assoc _ _ _
  zero_add a := by ext1 <;> simp
  add_zero a := by ext1 <;> simp

/-! ### The fields of a sum -/

variable {α : Type*} (f : α → Ohlcv K N)

/-- The first price that there is. -/
theorem openPrice_sum : ∀ xs : List α,
    (xs.map f).sum.openPrice = xs.findSome? fun x => (f x).openPrice
  | [] => rfl
  | x :: xs => by
      rw [List.map_cons, List.sum_cons, add_openPrice, openPrice_sum xs, List.findSome?_cons]
      cases (f x).openPrice <;> rfl

/-- The last price that there is. -/
theorem close_sum : ∀ xs : List α,
    (xs.map f).sum.close = xs.reverse.findSome? fun x => (f x).close
  | [] => rfl
  | x :: xs => by
      rw [List.map_cons, List.sum_cons, add_close, close_sum xs, List.reverse_cons,
        List.findSome?_append, List.findSome?_singleton]

/-- The maximum of the highest prices that there are. -/
theorem high_sum : ∀ xs : List α,
    (xs.map f).sum.high = (xs.filterMap fun x => (f x).high).max?
  | [] => rfl
  | x :: xs => by
      rw [List.map_cons, List.sum_cons, add_high, high_sum xs]
      cases hx : (f x).high with
      | none => simp only [List.filterMap_cons, hx, Option.merge_none_left]
      | some v => simp only [List.filterMap_cons, hx, List.max?_cons, some_merge]

/-- The minimum of the lowest prices that there are. -/
theorem low_sum : ∀ xs : List α,
    (xs.map f).sum.low = (xs.filterMap fun x => (f x).low).min?
  | [] => rfl
  | x :: xs => by
      rw [List.map_cons, List.sum_cons, add_low, low_sum xs]
      cases hx : (f x).low with
      | none => simp only [List.filterMap_cons, hx, Option.merge_none_left]
      | some v => simp only [List.filterMap_cons, hx, List.min?_cons, some_merge]

theorem volume_sum : ∀ xs : List α, (xs.map f).sum.volume = (xs.map fun x => (f x).volume).sum
  | [] => rfl
  | x :: xs => by simp [volume_sum xs]

theorem quoteVolume_sum : ∀ xs : List α,
    (xs.map f).sum.quoteVolume = (xs.map fun x => (f x).quoteVolume).sum
  | [] => rfl
  | x :: xs => by simp [quoteVolume_sum xs]

theorem buyVolume_sum : ∀ xs : List α,
    (xs.map f).sum.buyVolume = (xs.map fun x => (f x).buyVolume).sum
  | [] => rfl
  | x :: xs => by simp [buyVolume_sum xs]

theorem tradeCount_sum : ∀ xs : List α,
    (xs.map f).sum.tradeCount = (xs.map fun x => (f x).tradeCount).sum
  | [] => rfl
  | x :: xs => by simp [tradeCount_sum xs]

end Ohlcv

end MagnumOpus
