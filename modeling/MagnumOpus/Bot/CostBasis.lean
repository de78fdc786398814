import MagnumOpus.Bot.Positions
import MagnumOpus.Lib.LongLedger

/-! # Cost basis

The positions of an order worker against the money that went in and out.  `_update_position`
(`order_worker.py`) is called with one fill after the other (`bookFill`); of each symbol a ledger
keeps what the fills paid and received (`ledgerOf`).

After any fills the held quantity is that of the ledger, the average price is a basis of it, and the
realised profits are the profit it tells (`Balanced`).  The same holds of a whole run of the worker,
with the rows of filled orders in place of the fills (`balanced_run`). -/

namespace MagnumOpus.Bot

open EventMachine

/-! ### Fills and their ledger -/

/-- What a fill says that moves a position. -/
structure PositionMove where
  symbol : String
  side : OrderSide
  qty : ℚ
  price : ℚ
deriving DecidableEq

/-- The move of a fill. -/
def OrderFilled.move (f : OrderFilled) : PositionMove :=
  ⟨f.symbol, f.side, f.fillSize, f.fillPrice⟩

/-- The move of the row of a filled order. -/
def OrderEvent.move (row : OrderEvent) : PositionMove :=
  ⟨row.symbol, row.side, row.filledSize, row.avgFillPrice⟩

/-- The ledger after a move. -/
def PositionMove.enter (m : PositionMove) (l : LongLedger ℚ) : LongLedger ℚ :=
  match m.side with
  | .buy => l.buy m.qty m.price
  | .sell => l.sell m.qty m.price

/-- The ledger of one symbol after more moves. -/
def enterMoves (symbol : String) (l : LongLedger ℚ) (ms : List PositionMove) : LongLedger ℚ :=
  (ms.filter (·.symbol = symbol)).foldl (fun l m => m.enter l) l

/-- The ledger of one symbol. -/
def ledgerOf (symbol : String) (ms : List PositionMove) : LongLedger ℚ := enterMoves symbol {} ms

/-- The realised profit of one symbol. -/
def realisedOf (symbol : String) (profits : List (String × ℚ)) : ℚ :=
  ((profits.filter (·.1 = symbol)).map Prod.snd).sum

namespace OrderQueueWorker

/-- One call of `_update_position`, with the profit it returns. -/
def bookFill : Step OrderQueueWorker OrderFilled (String × ℚ) := fun w f =>
  let r := w.updatePosition f.symbol f.side f.fillSize f.fillPrice
  (r.1, [(f.symbol, r.2)])

/-- A position agrees with the ledger of its symbol and the profit that was realised on it. -/
structure Balanced (w : OrderQueueWorker) (symbol : String) (l : LongLedger ℚ) (realised : ℚ) :
    Prop where
  held : w.positionQty symbol = l.held
  basis : l.Basis (w.positionAvgPrice symbol)
  profit : l.profit (w.positionAvgPrice symbol) = realised

/-! ### One fill -/

variable {w v : OrderQueueWorker} {symbol : String} {l : LongLedger ℚ} {realised : ℚ}

theorem updatePosition_avgPrice_of_ne (w : OrderQueueWorker) (side : OrderSide) (qty price : ℚ)
    {symbol symbol' : String} (h : symbol' ≠ symbol) :
    (w.updatePosition symbol side qty price).1.positionAvgPrice symbol' =
      w.positionAvgPrice symbol' := by
  cases side with
  | buy => exact Function.update_of_ne h _ _
  | sell =>
      simp only [updatePosition]
      split
      · exact Function.update_of_ne h _ _
      · rfl

theorem updatePosition_buy_avgPrice {qty : ℚ} (price : ℚ) (hheld : 0 ≤ w.positionQty symbol)
    (hqty : 0 < qty) :
    (w.updatePosition symbol .buy qty price).1.positionAvgPrice symbol =
      (w.positionAvgPrice symbol * w.positionQty symbol + price * qty) /
        (w.positionQty symbol + qty) := by
  have hne : w.positionQty symbol + qty ≠ 0 := (add_pos_of_nonneg_of_pos hheld hqty).ne'
  simp only [updatePosition, Function.update_self, if_pos hne]

theorem updatePosition_sell_avgPrice (w : OrderQueueWorker) (symbol : String) (qty price : ℚ) :
    (w.updatePosition symbol .sell qty price).1.positionAvgPrice symbol =
      if w.positionQty symbol - min qty (w.positionQty symbol) = 0 then 0
      else w.positionAvgPrice symbol := by
  have hrest : max 0 (w.positionQty symbol - min qty (w.positionQty symbol)) =
      w.positionQty symbol - min qty (w.positionQty symbol) :=
    max_eq_right (sub_nonneg.mpr (min_le_right _ _))
  simp only [updatePosition, hrest]
  split
  · rw [Function.update_self]
  · rfl

/-- A sell that finds nothing closes nothing, so the test of the held quantity changes nothing. -/
theorem updatePosition_sell_profit {qty : ℚ} (price : ℚ) (hheld : 0 ≤ w.positionQty symbol)
    (hqty : 0 < qty) :
    (w.updatePosition symbol .sell qty price).2 =
      min qty (w.positionQty symbol) * (price - w.positionAvgPrice symbol) := by
  simp only [updatePosition]
  split
  · rfl
  · next hnot =>
      have hzero : w.positionQty symbol = 0 := le_antisymm (not_lt.mp hnot) hheld
      rw [hzero, min_eq_right hqty.le, zero_mul]

theorem Balanced.update (h : Balanced w symbol l realised) {m : PositionMove}
    (hsymbol : m.symbol = symbol) (hqty : 0 < m.qty) :
    let r := w.updatePosition m.symbol m.side m.qty m.price
    Balanced r.1 symbol (m.enter l) (realised + r.2) := by
  subst hsymbol
  obtain ⟨hheld, hbasis, hprofit⟩ := h
  have hnonneg : 0 ≤ w.positionQty m.symbol := hheld ▸ hbasis.nonneg
  obtain ⟨symbol, side, qty, price⟩ := m
  cases side with
  | buy =>
      have havg := updatePosition_buy_avgPrice price hnonneg hqty
      rw [hheld] at havg
      refine ⟨?_, ?_, ?_⟩
      · rw [(updatePosition_buy price hnonneg hqty).1, hheld]
        rfl
      · rw [havg]
        exact hbasis.buy hqty price
      · rw [havg]
        exact (LongLedger.profit_buy hbasis.nonneg hqty).trans (hprofit.trans (add_zero _).symm)
  | sell =>
      have havg := updatePosition_sell_avgPrice w symbol qty price
      rw [hheld] at havg
      refine ⟨?_, ?_, ?_⟩
      · rw [updatePosition_sell, hheld]
        rfl
      · rw [havg]
        exact hbasis.sell hqty price
      · rw [havg, updatePosition_sell_profit price hnonneg hqty, hheld, ← hprofit]
        exact LongLedger.profit_sell l _ qty price

theorem Balanced.update_of_ne (h : Balanced w symbol l realised) {m : PositionMove}
    (hsymbol : m.symbol ≠ symbol) :
    Balanced (w.updatePosition m.symbol m.side m.qty m.price).1 symbol l realised where
  held := (updatePosition_qty_of_ne w _ _ _ hsymbol.symm).trans h.held
  basis := by
    rw [updatePosition_avgPrice_of_ne w _ _ _ hsymbol.symm]
    exact h.basis
  profit := by
    rw [updatePosition_avgPrice_of_ne w _ _ _ hsymbol.symm]
    exact h.profit

/-! ### Runs -/

theorem realisedOf_cons (symbol : String) (e : String × ℚ) (profits : List (String × ℚ)) :
    realisedOf symbol (e :: profits) =
      (if e.1 = symbol then e.2 else 0) + realisedOf symbol profits := by
  unfold realisedOf
  by_cases h : e.1 = symbol
  · rw [List.filter_cons_of_pos (by simpa using h), if_pos h, List.map_cons, List.sum_cons]
  · rw [List.filter_cons_of_neg (by simpa using h), if_neg h, zero_add]

theorem realisedOf_append (symbol : String) (es es' : List (String × ℚ)) :
    realisedOf symbol (es ++ es') = realisedOf symbol es + realisedOf symbol es' := by
  unfold realisedOf
  rw [List.filter_append, List.map_append, List.sum_append]

theorem enterMoves_cons (symbol : String) (l : LongLedger ℚ) (m : PositionMove)
    (ms : List PositionMove) :
    enterMoves symbol l (m :: ms) =
      enterMoves symbol (if m.symbol = symbol then m.enter l else l) ms := by
  unfold enterMoves
  by_cases h : m.symbol = symbol
  · rw [List.filter_cons_of_pos (by simpa using h), if_pos h, List.foldl_cons]
  · rw [List.filter_cons_of_neg (by simpa using h), if_neg h]

theorem enterMoves_append (symbol : String) (l : LongLedger ℚ) (ms ms' : List PositionMove) :
    enterMoves symbol l (ms ++ ms') = enterMoves symbol (enterMoves symbol l ms) ms' := by
  unfold enterMoves
  rw [List.filter_append, List.foldl_append]

theorem Balanced.move (h : Balanced w symbol l realised) {m : PositionMove} (hqty : 0 < m.qty) :
    let r := w.updatePosition m.symbol m.side m.qty m.price
    Balanced r.1 symbol (enterMoves symbol l [m])
      (realised + realisedOf symbol [(m.symbol, r.2)]) := by
  intro r
  have hnil : realisedOf symbol [] = 0 := rfl
  rw [enterMoves_cons, realisedOf_cons, hnil, add_zero]
  by_cases hsymbol : m.symbol = symbol
  · rw [if_pos hsymbol, if_pos hsymbol]
    exact h.update hsymbol hqty
  · rw [if_neg hsymbol, if_neg hsymbol, add_zero]
    exact h.update_of_ne hsymbol

theorem balanced_bookFill : ∀ (fs : List OrderFilled) {w : OrderQueueWorker} {l : LongLedger ℚ}
    {realised : ℚ}, (∀ f ∈ fs, 0 < f.fillSize) → Balanced w symbol l realised →
      Balanced (final bookFill w fs) symbol (enterMoves symbol l (fs.map OrderFilled.move))
        (realised + realisedOf symbol (trace bookFill w fs))
  | [], w, l, realised, _, h => by
      rw [trace_nil]
      exact (add_zero realised).symm ▸ h
  | f :: fs, w, l, realised, hpos, h => by
      have hnext := h.move (m := f.move) (hpos f List.mem_cons_self)
      have hrest := balanced_bookFill fs (fun g hg => hpos g (List.mem_cons_of_mem f hg)) hnext
      rw [final_cons, trace_cons, List.map_cons, realisedOf_append, ← add_assoc,
        ← List.singleton_append, enterMoves_append]
      exact hrest

theorem balanced_of_flat (hqty : w.positionQty symbol = 0) (havg : w.positionAvgPrice symbol = 0) :
    Balanced w symbol {} 0 where
  held := hqty
  basis := havg.symm ▸ LongLedger.basis_new
  profit := by
    rw [havg]
    simp [LongLedger.profit]

/-- **The cost basis conserves money.**  After any fills, for each symbol: what the sells brought
less what the buys cost, with the rest at its average price, is the realised profit, and the average
price is one of the rest. -/
theorem cost_basis_conserved (strategyName : String) (maxPositionPct portfolioValueUsd : ℚ≥0)
    (maxOrderNotionalUsd : ℚ) {fs : List OrderFilled} (hpos : ∀ f ∈ fs, 0 < f.fillSize)
    (symbol : String) :
    let new := OrderQueueWorker.new strategyName maxPositionPct portfolioValueUsd
      maxOrderNotionalUsd
    let w := final bookFill new fs
    let l := ledgerOf symbol (fs.map OrderFilled.move)
    0 ≤ w.positionQty symbol ∧ w.positionQty symbol = l.held ∧
      l.received - l.paid + w.positionQty symbol * w.positionAvgPrice symbol =
        realisedOf symbol (trace bookFill new fs) ∧
      (w.positionQty symbol = 0 → w.positionAvgPrice symbol = 0) ∧
      (w.positionQty symbol ≠ 0 → ∃ lo ∈ l.prices, ∃ hi ∈ l.prices,
        lo ≤ w.positionAvgPrice symbol ∧ w.positionAvgPrice symbol ≤ hi) := by
  intro new w l
  have hnew : Balanced new symbol {} 0 := balanced_of_flat rfl rfl
  obtain ⟨hheld, hbasis, hprofit⟩ := balanced_bookFill fs hpos hnew
  rw [zero_add] at hprofit
  rw [show w.positionQty symbol = l.held from hheld]
  exact ⟨hbasis.nonneg, rfl, hprofit, hbasis.flat, hbasis.between⟩

theorem cost_basis_conserved_of_four :
    let fill (side : OrderSide) (price size : ℚ) : OrderFilled :=
      ⟨"1", "bybit", "BTCUSDT", side, price, size, 0, 0⟩
    let fs := [fill .buy 10 1, fill .buy 20 3, fill .sell 30 2, fill .sell 5 9]
    let new := OrderQueueWorker.new "s" 1 1 0
    let l := ledgerOf "BTCUSDT" (fs.map OrderFilled.move)
    l.received = 70 ∧ l.paid = 70 ∧ (final bookFill new fs).positionQty "BTCUSDT" = 0 ∧
      realisedOf "BTCUSDT" (trace bookFill new fs) = 0 := by
  intro fill fs new l
  have hpos : ∀ f ∈ fs, 0 < f.fillSize := by
    simp [fs, fill]
  obtain ⟨-, hheld, hprofit, -, -⟩ := cost_basis_conserved "s" 1 1 0 hpos "BTCUSDT"
  have hl : l.received = 70 ∧ l.paid = 70 ∧ l.held = 0 := by decide +kernel
  have hqty : (final bookFill new fs).positionQty "BTCUSDT" = 0 := hheld.trans hl.2.2
  refine ⟨hl.1, hl.2.1, hqty, ?_⟩
  rw [← hprofit, show (final bookFill new fs).positionQty "BTCUSDT" = 0 from hqty, zero_mul,
    add_zero]
  exact sub_eq_zero.mpr (hl.1.trans hl.2.1.symm)

/-! ### The worker -/

/-- The rows of filled orders. -/
def filledRows (effects : List OrderEffect) : List OrderEvent :=
  effects.filterMap fun
    | .writeOrderEvent row => if row.status = "filled" then some row else none
    | _ => none

theorem filledRows_append (es es' : List OrderEffect) :
    filledRows (es ++ es') = filledRows es ++ filledRows es' := List.filterMap_append

/-- The profits in rows, by symbol. -/
def rowProfits (rows : List OrderEvent) : List (String × ℚ) :=
  rows.map fun row => (row.symbol, row.realizedPnl)

/-- Only fills write rows of filled orders. -/
theorem filledRows_step {i : Input} (h : ∀ f, i ≠ .fill f) : filledRows (step w i).2 = [] := by
  cases i with
  | fill f => exact absurd rfl (h f)
  | post req => rfl
  | cancel => rfl
  | check stop => simp only [step]; split <;> rfl
  | timeout => simp only [step]; split <;> rfl
  | written => simp only [step]; split <;> rfl
  | booked k =>
      simp only [step]
      split
      · rfl
      · split <;> rfl
  | take =>
      simp only [step]
      split
      · unfold process
        split <;> rfl
      · rfl
  | response r =>
      simp only [step]
      split
      · cases r with
        | returned p =>
            simp only [placed]
            split <;> rfl
        | _ => rfl
      · rfl

theorem filledRows_fill {f : OrderFilled} {o : OrderRequest × PlacedOrder}
    (hseen : f.orderId ∉ w.seenFillIds) (hopen : w.openOrders.lookup f.orderId = some o) :
    ∃ row, row.move = f.move ∧ (row.symbol, row.realizedPnl) =
      (f.symbol, (w.updatePosition f.symbol f.side f.fillSize f.fillPrice).2) ∧
      filledRows (OrderQueueWorker.step w (.fill f)).2 = [row] := by
  obtain ⟨req, p⟩ := o
  simp only [OrderQueueWorker.step, handleFill, if_neg hseen, hopen]
  refine ⟨_, rfl, ?_, rfl⟩
  cases f.side <;> rfl

theorem Balanced.step (h : Balanced w symbol l realised) {i : Input}
    (hpos : ∀ f, i = .fill f → 0 < f.fillSize) :
    let r := OrderQueueWorker.step w i
    Balanced r.1 symbol (enterMoves symbol l ((filledRows r.2).map OrderEvent.move))
      (realised + realisedOf symbol (rowProfits (filledRows r.2))) := by
  intro r
  have hkeep : r.1.positionQty = w.positionQty → r.1.positionAvgPrice = w.positionAvgPrice →
      filledRows r.2 = [] →
      Balanced r.1 symbol (enterMoves symbol l ((filledRows r.2).map OrderEvent.move))
        (realised + realisedOf symbol (rowProfits (filledRows r.2))) := by
    intro hqty havg hrows
    rw [hrows]
    refine ⟨?_, ?_, ?_⟩
    · rw [hqty]
      exact h.held
    · rw [havg]
      exact h.basis
    · rw [havg]
      exact h.profit.trans (add_zero realised).symm
  by_cases hfill : ∃ f, i = .fill f
  · obtain ⟨f, rfl⟩ := hfill
    by_cases hseen : f.orderId ∈ w.seenFillIds
    · have hr : r = (w, []) := if_pos hseen
      exact hkeep (by rw [hr]) (by rw [hr]) (by rw [hr]; rfl)
    · cases hopen : w.openOrders.lookup f.orderId with
      | none =>
          have hr : r = ({ w with seenFillIds := remember w.seenFillIds f.orderId }, []) := by
            simp only [r, OrderQueueWorker.step, handleFill, if_neg hseen, hopen]
          exact hkeep (by rw [hr]) (by rw [hr]) (by rw [hr]; rfl)
      | some o =>
          obtain ⟨hqty, havg⟩ := position_fill hseen hopen
          obtain ⟨row, hmove, hprofit, hrows⟩ := filledRows_fill hseen hopen
          have hmoved := h.move (m := f.move) (hpos f rfl)
          rw [hrows, List.map_singleton, hmove, rowProfits, List.map_singleton, hprofit]
          exact ⟨hqty ▸ hmoved.held, havg ▸ hmoved.basis, havg ▸ hmoved.profit⟩
  · obtain ⟨hqty, havg⟩ := position_step fun f hf => hfill ⟨f, hf⟩
    exact hkeep hqty havg (filledRows_step fun f hf => hfill ⟨f, hf⟩)

/-- What the rows of a run say of filled orders balances the positions it ends with. -/
theorem balanced_run : ∀ (is : List Input) {w : OrderQueueWorker} {l : LongLedger ℚ} {realised : ℚ},
    (∀ f, .fill f ∈ is → 0 < f.fillSize) → Balanced w symbol l realised →
      Balanced (final OrderQueueWorker.step w is) symbol
        (enterMoves symbol l ((filledRows (trace OrderQueueWorker.step w is)).map OrderEvent.move))
        (realised + realisedOf symbol (rowProfits (filledRows (trace OrderQueueWorker.step w is))))
  | [], w, l, realised, _, h => by
      rw [trace_nil]
      exact (add_zero realised).symm ▸ h
  | i :: is, w, l, realised, hpos, h => by
      have hnext := h.step fun f hf => hpos f (hf ▸ List.mem_cons_self)
      have hrest := balanced_run is (fun f hf => hpos f (List.mem_cons_of_mem i hf)) hnext
      rw [trace_cons, filledRows_append, List.map_append, enterMoves_append, rowProfits,
        List.map_append, realisedOf_append, ← add_assoc]
      exact hrest

end OrderQueueWorker

end MagnumOpus.Bot
