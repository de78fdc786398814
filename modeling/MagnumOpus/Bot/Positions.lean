import MagnumOpus.Bot.OrderWorkerSteps

/-! # Positions

What the fills of an order worker do to its positions (`_update_position`, `order_worker.py`): a buy
adds its quantity and its cost, a sell takes its quantity off, but no more than is held.  Nothing
else moves them (`position_step`). -/

namespace MagnumOpus.Bot

namespace OrderQueueWorker

variable {w : OrderQueueWorker} {i : Input}

/-- What has been paid for a position. -/
def positionCost (w : OrderQueueWorker) (symbol : String) : ℚ :=
  w.positionAvgPrice symbol * w.positionQty symbol

theorem updatePosition_qty_of_ne (w : OrderQueueWorker) (side : OrderSide) (qty price : ℚ)
    {symbol symbol' : String} (h : symbol' ≠ symbol) :
    (w.updatePosition symbol side qty price).1.positionQty symbol' = w.positionQty symbol' := by
  cases side <;> exact Function.update_of_ne h _ _

theorem updatePosition_buy {symbol : String} {qty : ℚ} (price : ℚ)
    (hheld : 0 ≤ w.positionQty symbol) (hqty : 0 < qty) :
    let v := (w.updatePosition symbol .buy qty price).1
    v.positionQty symbol = w.positionQty symbol + qty ∧
      v.positionCost symbol = w.positionCost symbol + price * qty := by
  have hne : w.positionQty symbol + qty ≠ 0 := (add_pos_of_nonneg_of_pos hheld hqty).ne'
  have hnew : (w.updatePosition symbol .buy qty price).1.positionQty symbol =
      w.positionQty symbol + qty := Function.update_self _ _ _
  have havg : (w.updatePosition symbol .buy qty price).1.positionAvgPrice symbol =
      (w.positionAvgPrice symbol * w.positionQty symbol + price * qty) /
        (w.positionQty symbol + qty) := by
    simp only [updatePosition, Function.update_self, if_pos hne]
  refine ⟨hnew, ?_⟩
  rw [positionCost, hnew, havg, div_mul_cancel₀ _ hne]
  rfl

/-- A sell takes no more off than is held. -/
theorem updatePosition_sell {symbol : String} {qty : ℚ} (price : ℚ) :
    (w.updatePosition symbol .sell qty price).1.positionQty symbol =
      w.positionQty symbol - min qty (w.positionQty symbol) := by
  simp only [updatePosition, Function.update_self]
  exact max_eq_right (sub_nonneg.mpr (min_le_right _ _))

theorem updatePosition_nonneg {symbol : String} {side : OrderSide} {qty : ℚ} (price : ℚ)
    (hheld : ∀ symbol, 0 ≤ w.positionQty symbol) (hqty : 0 < qty) (symbol' : String) :
    0 ≤ (w.updatePosition symbol side qty price).1.positionQty symbol' := by
  by_cases hs : symbol' = symbol
  · subst hs
    cases side with
    | buy =>
        rw [(updatePosition_buy price (hheld symbol') hqty).1]
        exact add_nonneg (hheld symbol') hqty.le
    | sell =>
        rw [updatePosition_sell]
        exact sub_nonneg.mpr (min_le_right _ _)
  · rw [updatePosition_qty_of_ne w side qty price hs]
    exact hheld symbol'

/-- Only a fill moves a position. -/
theorem position_step (h : ∀ f, i ≠ .fill f) :
    (step w i).1.positionQty = w.positionQty ∧
      (step w i).1.positionAvgPrice = w.positionAvgPrice := by
  cases i with
  | fill f => exact absurd rfl (h f)
  | take =>
      simp only [step]
      split
      · rw [process_of_queue]
        split <;> exact ⟨rfl, rfl⟩
      · exact ⟨rfl, rfl⟩
  | response r =>
      simp only [step]
      split
      · cases r with
        | returned p =>
            simp only [placed]
            cases p.status <;> exact ⟨rfl, rfl⟩
        | _ => exact ⟨rfl, rfl⟩
      · exact ⟨rfl, rfl⟩
  | booked k =>
      simp only [step]
      cases w.bookings[k]? <;> exact ⟨rfl, rfl⟩
  | post req => exact ⟨rfl, rfl⟩
  | cancel => exact ⟨rfl, rfl⟩
  | _ =>
      simp only [step]
      split <;> exact ⟨rfl, rfl⟩

/-! ### Fills -/

/-- What a fill of an open order adds to the position. -/
def fillChange (w : OrderQueueWorker) (f : OrderFilled) : ℚ :=
  match f.side with
  | .buy => f.fillSize
  | .sell => -(min f.fillSize (w.positionQty f.symbol))

theorem position_fill {f : OrderFilled} {o : OrderRequest × PlacedOrder}
    (hseen : f.orderId ∉ w.seenFillIds) (hopen : w.openOrders.lookup f.orderId = some o) :
    let v := (w.updatePosition f.symbol f.side f.fillSize f.fillPrice).1
    (step w (.fill f)).1.positionQty = v.positionQty ∧
      (step w (.fill f)).1.positionAvgPrice = v.positionAvgPrice := by
  obtain ⟨req, p⟩ := o
  simp only [step, handleFill, if_neg hseen, hopen]
  cases f.side <;> exact ⟨rfl, rfl⟩

theorem positionQty_fill {f : OrderFilled} {o : OrderRequest × PlacedOrder}
    (hseen : f.orderId ∉ w.seenFillIds) (hopen : w.openOrders.lookup f.orderId = some o) :
    (step w (.fill f)).1.positionQty f.symbol - w.positionQty f.symbol = fillChange w f := by
  rw [(position_fill hseen hopen).1, fillChange]
  cases f.side with
  | buy =>
      have hnew : (w.updatePosition f.symbol .buy f.fillSize f.fillPrice).1.positionQty f.symbol =
          w.positionQty f.symbol + f.fillSize := Function.update_self _ _ _
      rw [hnew, add_sub_cancel_left]
  | sell => rw [updatePosition_sell, sub_sub_cancel_left]

theorem positionCost_fill {f : OrderFilled} {o : OrderRequest × PlacedOrder}
    (hseen : f.orderId ∉ w.seenFillIds) (hopen : w.openOrders.lookup f.orderId = some o)
    (hbuy : f.side = .buy) (hheld : 0 ≤ w.positionQty f.symbol) (hsize : 0 < f.fillSize) :
    (step w (.fill f)).1.positionCost f.symbol - w.positionCost f.symbol =
      f.fillPrice * f.fillSize := by
  obtain ⟨hqty, hprice⟩ := position_fill hseen hopen
  have hcost : (step w (.fill f)).1.positionCost f.symbol =
      (w.updatePosition f.symbol f.side f.fillSize f.fillPrice).1.positionCost f.symbol := by
    rw [positionCost, positionCost, hqty, hprice]
  rw [hcost, hbuy, (updatePosition_buy f.fillPrice hheld hsize).2, add_sub_cancel_left]

end OrderQueueWorker

end MagnumOpus.Bot
