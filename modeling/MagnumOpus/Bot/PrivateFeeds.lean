import Mathlib.Algebra.BigOperators.Group.List.Basic
import Mathlib.Algebra.Order.BigOperators.Group.List
import MagnumOpus.Bot.Orders

/-! # Private fill feeds

What the exchanges report of an order that is filled by some executions, and the fill event that the
bot makes of a report.

* **Bybit.** Its feed sends an update after each execution, with the quantity and the average price
  of all executions so far (`exchange/bybit/ws_private.py`); its REST history has the order when it
  is filled (`exchange/bybit/rest.py`).
* **KuCoin.** Its feed sends a message for each execution, of which those of type `filled` are
  parsed (`exchange/kucoin/ws_private.py`); its REST fills have an item for each execution
  (`exchange/kucoin/rest.py`).

A report is whole (`Report.Whole`) when its fill event has the quantity and the cost of all
executions (`fillOf_of_whole`). -/

namespace MagnumOpus.Bot

/-! ### Executions -/

structure Execution where
  price : ℚ
  size : ℚ
  fee : ℚ
  /-- Milliseconds. -/
  tradeTime : ℤ
  size_pos : 0 < size

def totalSize (es : List Execution) : ℚ := (es.map Execution.size).sum

def totalCost (es : List Execution) : ℚ := (es.map fun e => e.price * e.size).sum

/-- The volume-weighted price. -/
def avgPrice (es : List Execution) : ℚ := totalCost es / totalSize es

theorem totalSize_pos {es : List Execution} (h : es ≠ []) : 0 < totalSize es := by
  refine List.sum_pos _ (fun x hx => ?_) fun hnil => h (List.map_eq_nil_iff.mp hnil)
  obtain ⟨e, -, rfl⟩ := List.mem_map.mp hx
  exact e.size_pos

theorem avgPrice_mul_totalSize {es : List Execution} (h : es ≠ []) :
    avgPrice es * totalSize es = totalCost es :=
  div_mul_cancel₀ _ (totalSize_pos h).ne'

@[simp] theorem totalSize_cons (e : Execution) (es : List Execution) :
    totalSize (e :: es) = e.size + totalSize es := List.sum_cons

@[simp] theorem totalSize_append (es fs : List Execution) :
    totalSize (es ++ fs) = totalSize es + totalSize fs := by
  unfold totalSize
  rw [List.map_append, List.sum_append]

theorem totalSize_take_lt {es : List Execution} {n : ℕ} (h : n < es.length) :
    totalSize (es.take n) < totalSize es := by
  have hrest : es.drop n ≠ [] := by
    intro hnil
    exact absurd (List.drop_eq_nil_iff.mp hnil) (Nat.not_le.mpr h)
  calc totalSize (es.take n)
      < totalSize (es.take n) + totalSize (es.drop n) := lt_add_of_pos_right _ (totalSize_pos hrest)
    _ = totalSize es := by rw [← totalSize_append, List.take_append_drop]

/-- One of several executions makes less than all of them. -/
theorem size_lt_totalSize {es : List Execution} (h : es.length ≠ 1) (k : Fin es.length) :
    (es.get k).size < totalSize es := by
  have hlen : (es.eraseIdx k).length = es.length - 1 := List.length_eraseIdx_of_lt k.isLt
  have hrest : es.eraseIdx k ≠ [] := by
    intro hnil
    rw [hnil, List.length_nil] at hlen
    have := k.isLt
    omega
  have hperm : (es.get k :: es.eraseIdx k).Perm es := List.getElem_cons_eraseIdx_perm k.isLt
  calc (es.get k).size
      < (es.get k).size + totalSize (es.eraseIdx k) := lt_add_of_pos_right _ (totalSize_pos hrest)
    _ = totalSize es := by rw [← totalSize_cons]; exact (hperm.map _).sum_eq

theorem total_of_length_eq_one {es : List Execution} (h : es.length = 1) (k : Fin es.length) :
    (es.get k).size = totalSize es ∧ (es.get k).price * (es.get k).size = totalCost es ∧
      k.val = 0 := by
  obtain ⟨e, rfl⟩ := List.length_eq_one_iff.mp h
  have hk : k = 0 := Subsingleton.elim (α := Fin 1) k 0
  subst hk
  exact ⟨(List.sum_singleton).symm, (List.sum_singleton).symm, rfl⟩

/-- An order and all its executions. -/
structure ExecutedOrder where
  symbol : String
  side : OrderSide
  executions : List Execution
  executions_ne_nil : executions ≠ []

/-! ### Messages -/

/-- An item of Bybit's order topic, and of its order history. -/
structure BybitOrder where
  orderId : String
  orderStatus : String
  symbol : String
  side : OrderSide
  avgPrice : ℚ
  cumExecQty : ℚ
  cumExecFee : ℚ
  updatedTime : ℤ

/-- KuCoin's order-change message. -/
structure KucoinOrderChange where
  type : String
  orderId : String
  symbol : String
  side : OrderSide
  matchPrice : ℚ
  matchSize : ℚ
  fee : ℚ
  tradeTime : ℤ

/-- An item of KuCoin's REST fills. -/
structure KucoinFillItem where
  orderId : String
  symbol : String
  side : OrderSide
  price : ℚ
  size : ℚ
  fee : ℚ
  createdAt : ℤ

def BybitOrder.toFill (item : BybitOrder) : OrderFilled where
  orderId := item.orderId
  exchange := "bybit"
  symbol := item.symbol
  side := item.side
  fillPrice := item.avgPrice
  fillSize := item.cumExecQty
  fee := item.cumExecFee
  tsExchange := item.updatedTime

/-- An item of `_parse_fills`. -/
def BybitOrder.parseFill (item : BybitOrder) : Option OrderFilled :=
  if item.orderStatus ∈ ["Filled", "PartiallyFilled"] then some item.toFill else none

/-- An item of Bybit's `get_recent_fills`. -/
def BybitOrder.recentFill (item : BybitOrder) : Option OrderFilled :=
  if item.orderStatus = "Filled" then some item.toFill else none

def KucoinOrderChange.toFill (data : KucoinOrderChange) : OrderFilled where
  orderId := data.orderId
  exchange := "kucoin"
  symbol := data.symbol
  side := data.side
  fillPrice := data.matchPrice
  fillSize := data.matchSize
  fee := data.fee
  tsExchange := data.tradeTime

def KucoinOrderChange.parseFill (data : KucoinOrderChange) : Option OrderFilled :=
  if data.type = "filled" then some data.toFill else none

/-- An item of KuCoin's `get_recent_fills`. -/
def KucoinFillItem.recentFill (item : KucoinFillItem) : OrderFilled where
  orderId := item.orderId
  exchange := "kucoin"
  symbol := item.symbol
  side := item.side
  fillPrice := item.price
  fillSize := item.size
  fee := item.fee
  tsExchange := item.createdAt

theorem BybitOrder.eq_toFill {item : BybitOrder} {f : OrderFilled}
    (h : item.parseFill = some f ∨ item.recentFill = some f) : f = item.toFill := by
  unfold parseFill recentFill at h
  rcases h with h | h <;> split at h
  all_goals first
    | exact (Option.some.inj h).symm
    | cases h

theorem KucoinOrderChange.parseFill_of_filled {data : KucoinOrderChange}
    (h : data.type = "filled") : data.parseFill = some data.toFill := if_pos h

theorem KucoinOrderChange.eq_toFill {data : KucoinOrderChange} {f : OrderFilled}
    (h : data.parseFill = some f) : f = data.toFill := by
  unfold parseFill at h
  split at h
  · exact (Option.some.inj h).symm
  · cases h

/-! ### Reports -/

/-- What the exchanges report of the orders of a book. -/
inductive Report (book : String → ExecutedOrder) where
  /-- Bybit's update after an execution. -/
  | bybitUpdate (id : String) (k : Fin (book id).executions.length)
  | bybitHistory (id : String)
  /-- KuCoin's message of an execution. -/
  | kucoinMessage (id : String) (k : Fin (book id).executions.length) (type : String)
  | kucoinFill (id : String) (k : Fin (book id).executions.length)

/-- Bybit's view of an order after some executions. -/
def ExecutedOrder.bybitOrder (o : ExecutedOrder) (id : String) (done : List Execution) :
    BybitOrder where
  orderId := id
  orderStatus := if done.length = o.executions.length then "Filled" else "PartiallyFilled"
  symbol := o.symbol
  side := o.side
  avgPrice := avgPrice done
  cumExecQty := totalSize done
  cumExecFee := (done.map Execution.fee).sum
  updatedTime := (done.getLast?.map Execution.tradeTime).getD 0

namespace Report

variable {book : String → ExecutedOrder}

def orderId : Report book → String
  | .bybitUpdate id _ => id
  | .bybitHistory id => id
  | .kucoinMessage id _ _ => id
  | .kucoinFill id _ => id

/-- The fill event of a report. -/
def fillOf : Report book → Option OrderFilled
  | .bybitUpdate id k =>
      ((book id).bybitOrder id ((book id).executions.take (k + 1))).parseFill
  | .bybitHistory id => ((book id).bybitOrder id (book id).executions).recentFill
  | .kucoinMessage id k type =>
      let e := (book id).executions.get k
      (KucoinOrderChange.mk type id (book id).symbol (book id).side e.price e.size e.fee
        e.tradeTime).parseFill
  | .kucoinFill id k =>
      let e := (book id).executions.get k
      some (KucoinFillItem.mk id (book id).symbol (book id).side e.price e.size e.fee
        e.tradeTime).recentFill

/-- The executions that a report tells of. -/
def reveals : Report book → List ℕ
  | .bybitUpdate _ k => List.range (k + 1)
  | .bybitHistory id => List.range (book id).executions.length
  | .kucoinMessage _ k _ => [k]
  | .kucoinFill _ k => [k]

/-- The report is parsed, and tells of all executions at once. -/
def Whole : Report book → Prop
  | .bybitUpdate id k => k + 1 = (book id).executions.length
  | .bybitHistory _ => True
  | .kucoinMessage id _ type => type = "filled" ∧ (book id).executions.length = 1
  | .kucoinFill id _ => (book id).executions.length = 1

/-- What every fill event of a report has. -/
structure FillOf (r : Report book) (f : OrderFilled) : Prop where
  orderId : f.orderId = r.orderId
  symbol : f.symbol = (book r.orderId).symbol
  side : f.side = (book r.orderId).side

theorem fillOf_eq {r : Report book} {f : OrderFilled} (h : r.fillOf = some f) : FillOf r f := by
  cases r with
  | bybitUpdate id k =>
      rw [BybitOrder.eq_toFill (.inl h)]
      exact ⟨rfl, rfl, rfl⟩
  | bybitHistory id =>
      rw [BybitOrder.eq_toFill (.inr h)]
      exact ⟨rfl, rfl, rfl⟩
  | kucoinMessage id k type =>
      rw [KucoinOrderChange.eq_toFill h]
      exact ⟨rfl, rfl, rfl⟩
  | kucoinFill id k =>
      cases h
      exact ⟨rfl, rfl, rfl⟩

theorem fillSize_pos {r : Report book} {f : OrderFilled} (h : r.fillOf = some f) :
    0 < f.fillSize := by
  cases r with
  | bybitUpdate id k =>
      rw [BybitOrder.eq_toFill (.inl h)]
      refine totalSize_pos fun hnil => ?_
      rcases List.take_eq_nil_iff.mp hnil with hzero | hnil
      · omega
      · exact (book id).executions_ne_nil hnil
  | bybitHistory id =>
      rw [BybitOrder.eq_toFill (.inr h)]
      exact totalSize_pos (book id).executions_ne_nil
  | kucoinMessage id k type =>
      rw [KucoinOrderChange.eq_toFill h]
      exact ((book id).executions.get k).size_pos
  | kucoinFill id k =>
      cases h
      exact ((book id).executions.get k).size_pos

/-- The fill event of a whole report has the quantity and the cost of all executions. -/
structure CompleteFill (r : Report book) (f : OrderFilled) : Prop where
  fillOf : r.fillOf = some f
  size : f.fillSize = totalSize (book r.orderId).executions
  cost : f.fillPrice * f.fillSize = totalCost (book r.orderId).executions
  reveals : ∀ k < (book r.orderId).executions.length, k ∈ r.reveals

theorem fillOf_of_whole {r : Report book} (h : r.Whole) : ∃ f, CompleteFill r f := by
  cases r with
  | bybitUpdate id k =>
      have hall : (book id).executions.take (k + 1) = (book id).executions :=
        List.take_of_length_le (Nat.le_of_eq (Eq.symm h))
      refine ⟨((book id).bybitOrder id (book id).executions).toFill, ?_, rfl,
        avgPrice_mul_totalSize (book id).executions_ne_nil, fun j hj => ?_⟩
      · simp [fillOf, hall, BybitOrder.parseFill, ExecutedOrder.bybitOrder]
      · exact List.mem_range.mpr (Nat.lt_of_lt_of_eq hj (Eq.symm h))
  | bybitHistory id =>
      refine ⟨((book id).bybitOrder id (book id).executions).toFill, ?_, rfl,
        avgPrice_mul_totalSize (book id).executions_ne_nil, fun j hj => List.mem_range.mpr hj⟩
      simp [fillOf, BybitOrder.recentFill, ExecutedOrder.bybitOrder]
  | kucoinMessage id k type =>
      obtain ⟨rfl, hlen⟩ := h
      obtain ⟨hsize, hcost, hk⟩ := total_of_length_eq_one hlen k
      let e := (book id).executions.get k
      refine ⟨(KucoinOrderChange.mk "filled" id (book id).symbol (book id).side e.price e.size e.fee
        e.tradeTime).toFill, KucoinOrderChange.parseFill_of_filled rfl, hsize, hcost,
        fun j hj => ?_⟩
      have hj' : j < (book id).executions.length := hj
      exact List.mem_singleton.mpr (by omega)
  | kucoinFill id k =>
      have hlen : (book id).executions.length = 1 := h
      obtain ⟨hsize, hcost, hk⟩ := total_of_length_eq_one hlen k
      refine ⟨_, rfl, hsize, hcost, fun j hj => ?_⟩
      have hj' : j < (book id).executions.length := hj
      exact List.mem_singleton.mpr (by omega)

/-- The fill event of any other report has less. -/
theorem fillSize_lt_of_not_whole {r : Report book} {f : OrderFilled} (hf : r.fillOf = some f)
    (h : ¬ r.Whole) : f.fillSize < totalSize (book r.orderId).executions := by
  cases r with
  | bybitUpdate id k =>
      rw [BybitOrder.eq_toFill (.inl hf)]
      exact totalSize_take_lt (Nat.lt_of_le_of_ne k.isLt h)
  | bybitHistory id => exact absurd trivial h
  | kucoinMessage id k type =>
      have hlen : (book id).executions.length ≠ 1 := by
        intro hone
        refine h ⟨?_, hone⟩
        by_contra htype
        cases (if_neg htype).symm.trans hf
      rw [KucoinOrderChange.eq_toFill hf]
      exact size_lt_totalSize hlen k
  | kucoinFill id k =>
      cases hf
      exact size_lt_totalSize h k

theorem fillSize_le {r : Report book} {f : OrderFilled} (hf : r.fillOf = some f) :
    f.fillSize ≤ totalSize (book r.orderId).executions := by
  by_cases h : r.Whole
  · obtain ⟨f', hcomplete⟩ := fillOf_of_whole h
    cases hf.symm.trans hcomplete.fillOf
    exact hcomplete.size.le
  · exact (fillSize_lt_of_not_whole hf h).le

/-- A report is whole when its fill event has all of the quantity. -/
theorem whole_iff_fillSize {r : Report book} {f : OrderFilled} (hf : r.fillOf = some f) :
    r.Whole ↔ totalSize (book r.orderId).executions ≤ f.fillSize := by
  refine ⟨fun h => ?_, fun hle => ?_⟩
  · obtain ⟨f', hcomplete⟩ := fillOf_of_whole h
    cases hf.symm.trans hcomplete.fillOf
    exact hcomplete.size.ge
  · by_contra h
    exact absurd (fillSize_lt_of_not_whole hf h) (not_lt.mpr hle)

end Report

end MagnumOpus.Bot
