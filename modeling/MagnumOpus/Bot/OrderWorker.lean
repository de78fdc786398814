import MagnumOpus.Bot.Orders
import MagnumOpus.Lib.EventMachine
import MagnumOpus.Lib.KeyedSum

/-! # The order queue worker

`OrderQueueWorker` (`order_worker.py`) takes the orders of one strategy from a queue, sends those
that pass its tests to the exchange, and books the fills.

* **Awaits.** The worker is a coroutine; what it awaits is its `Stage`.  Between two awaits nothing
  else runs, so a step is what happens from one await to the next (`Input`).
* **Fills.** `handle_fill` is a coroutine of its own and may come in at any stage.  It books the
  fill at once, and reports the profit to the circuit breaker after its row has been written.
* **Bounds.** The ids of handled fills are kept in a queue of bounded length.

Metrics and log lines are left out. -/

namespace MagnumOpus.Bot

open EventMachine KeyedSum

/-- What the worker's loop awaits. -/
inductive Stage where
  /-- At the top of the loop. -/
  | top
  /-- The next order of the queue. -/
  | waiting
  /-- The answer of `place_order`. -/
  | placing (req : OrderRequest)
  /-- The row of an order that was not placed. -/
  | reporting
  /-- The row of a placed order, which is not in `openOrders` yet. -/
  | persisting (req : OrderRequest) (placed : PlacedOrder)
  /-- The loop has ended. -/
  | ended
deriving DecidableEq

structure OrderQueueWorker where
  strategyName : String
  maxPositionPct : ℚ≥0
  portfolioValueUsd : ℚ≥0
  /-- No limit when it is `0`. -/
  maxOrderNotionalUsd : ℚ
  tripFired : Bool
  queue : List OrderRequest
  openOrders : Entries String (OrderRequest × PlacedOrder)
  /-- The notional of a symbol in USD. -/
  positionNotional : String → ℚ≥0
  positionQty : String → ℚ
  positionAvgPrice : String → ℚ
  /-- The ids of the fills handled last, oldest first. -/
  seenFillIds : List String
  stage : Stage
  /-- The profits of booked fills whose rows are being written. -/
  bookings : List ℚ

/-- What `place_order` comes to. -/
inductive Response where
  | returned (placed : PlacedOrder)
  | restError
  /-- Any other exception. -/
  | raised
deriving DecidableEq

/-- Something that happens to the worker. -/
inductive Input where
  | post (req : OrderRequest)
  /-- The loop tests whether the strategy has been told to stop. -/
  | check (stop : Bool)
  /-- The queue hands over its oldest order. -/
  | take
  /-- Nothing came from the queue in time. -/
  | timeout
  | response (r : Response)
  /-- The row of an order has been written. -/
  | written
  | fill (f : OrderFilled)
  /-- The row of a booked fill has been written. -/
  | booked (k : ℕ)
  | cancel
deriving DecidableEq

/-- Something the worker does. -/
inductive OrderEffect where
  | placeOrder (req : OrderRequest)
  | writeOrderEvent (row : OrderEvent)
  | recordPnl (realizedPnl : ℚ)
deriving DecidableEq

namespace OrderQueueWorker

def new (strategyName : String) (maxPositionPct portfolioValueUsd : ℚ≥0)
    (maxOrderNotionalUsd : ℚ) : OrderQueueWorker where
  strategyName := strategyName
  maxPositionPct := maxPositionPct
  portfolioValueUsd := portfolioValueUsd
  maxOrderNotionalUsd := maxOrderNotionalUsd
  tripFired := false
  queue := []
  openOrders := ∅
  positionNotional := fun _ => 0
  positionQty := fun _ => 0
  positionAvgPrice := fun _ => 0
  seenFillIds := []
  stage := .top
  bookings := []

/-! ### Tests of an order -/

/-- An open entry order exists for the symbol and side of an entry order. -/
def isEntryDedup (w : OrderQueueWorker) (req : OrderRequest) : Bool :=
  req.orderRole = .entry ∧ w.openOrders.entries.any fun e =>
    e.2.1.symbol = req.symbol ∧ e.2.1.side = req.side ∧ e.2.1.orderRole = .entry

/-- The notional in USD, whatever the type of the order. -/
def orderNotional (w : OrderQueueWorker) (req : OrderRequest) : ℚ≥0 :=
  req.size * w.portfolioValueUsd

/-- The order would push the position above its share of the portfolio.  Exit and stop orders are
never blocked. -/
def exceedsRiskGate (w : OrderQueueWorker) (req : OrderRequest) : Bool :=
  req.orderRole ∉ [OrderRole.exit, .stop] ∧
    w.maxPositionPct * w.portfolioValueUsd < w.positionNotional req.symbol + w.orderNotional req

/-- The order exceeds the absolute limit of a single order. -/
def exceedsHardLimit (w : OrderQueueWorker) (req : OrderRequest) : Bool :=
  req.orderRole ∉ [OrderRole.exit, .stop] ∧ 0 < w.maxOrderNotionalUsd ∧
    w.maxOrderNotionalUsd < w.orderNotional req

/-- The order passes all tests. -/
def admits (w : OrderQueueWorker) (req : OrderRequest) : Bool :=
  !w.isEntryDedup req && !w.exceedsHardLimit req && !w.exceedsRiskGate req

/-! ### Placing -/

/-- Routes one order through the tests to the exchange. -/
def process (w : OrderQueueWorker) (req : OrderRequest) : OrderQueueWorker × List OrderEffect :=
  if w.admits req then ({ w with stage := .placing req }, [.placeOrder req])
  else ({ w with stage := .top }, [])

/-- The row of an order that has not been filled. -/
def orderRow (req : OrderRequest) (orderId clientOrderId status : String) (tsExchange : ℤ) :
    OrderEvent where
  orderId := orderId
  clientOrderId := clientOrderId
  strategy := req.strategy
  exchange := req.exchange
  symbol := req.symbol
  side := req.side
  orderType := req.orderType
  status := status
  limitPrice := req.limitPrice.getD 0
  stopPrice := req.stopPrice.getD 0
  takeProfitPrice := req.takeProfitPrice.getD 0
  requestedSize := req.size
  filledSize := 0
  remainingSize := req.size
  avgFillPrice := 0
  fee := 0
  realizedPnl := 0
  slippage := 0
  positionSizeAfter := 0
  tsExchange := tsExchange

/-- What follows the answer of `place_order`. -/
def placed (w : OrderQueueWorker) (req : OrderRequest) : Response →
    OrderQueueWorker × List OrderEffect
  | .restError =>
      ({ w with stage := .reporting },
        [.writeOrderEvent (orderRow req "" req.clientOrderId "failed" 0)])
  | .returned p =>
      match p.status with
      | .rejected =>
          ({ w with stage := .reporting }, [.writeOrderEvent
            (orderRow req p.orderId p.clientOrderId "rejected" (p.tsExchange * 1000))])
      | .placed =>
          -- The row is written before `openOrders` is updated, for the recovery from a crash.
          ({ w with stage := .persisting req p }, [.writeOrderEvent
            (orderRow req p.orderId p.clientOrderId "placed" (p.tsExchange * 1000))])
  | .raised => ({ w with stage := .ended }, [])

/-- Enters a placed order into `openOrders` and reserves its notional. -/
def insertOpen (w : OrderQueueWorker) (req : OrderRequest) (p : PlacedOrder) : OrderQueueWorker :=
  { w with
    stage := .top
    openOrders := w.openOrders.insert p.orderId (req, p)
    positionNotional := Function.update w.positionNotional req.symbol
      (w.positionNotional req.symbol + w.orderNotional req) }

/-! ### Reconciliation -/

/-- Restores an open order at startup. -/
def restoreOpenOrder (w : OrderQueueWorker) (id : String) (req : OrderRequest) (p : PlacedOrder) :
    OrderQueueWorker :=
  { w with
    openOrders := w.openOrders.insert id (req, p)
    positionNotional := Function.update w.positionNotional req.symbol
      (w.positionNotional req.symbol + w.orderNotional req) }

/-- Restores a position at startup. -/
def restorePosition (w : OrderQueueWorker) (symbol : String) (qty avgPrice : ℚ) :
    OrderQueueWorker :=
  { w with
    positionQty := Function.update w.positionQty symbol qty
    positionAvgPrice := Function.update w.positionAvgPrice symbol avgPrice }

/-! ### Fills -/

/-- The length of the queue of handled fill ids. -/
def maxSeen : ℕ := 10000

/-- Adds an id, and drops the oldest one when there is no room. -/
def remember (ids : List String) (id : String) : List String :=
  (if ids.length = maxSeen then ids.drop 1 else ids) ++ [id]

/-- Moves the position by a fill; the result is the realised profit, `0` for opening fills. -/
def updatePosition (w : OrderQueueWorker) (symbol : String) (side : OrderSide) (qty price : ℚ) :
    OrderQueueWorker × ℚ :=
  let curQty := w.positionQty symbol
  let curAvg := w.positionAvgPrice symbol
  match side with
  | .buy =>
      let newQty := curQty + qty
      ({ w with
         positionAvgPrice := Function.update w.positionAvgPrice symbol
           (if newQty ≠ 0 then (curAvg * curQty + price * qty) / newQty else 0)
         positionQty := Function.update w.positionQty symbol newQty }, 0)
  | .sell =>
      let closed := min qty curQty
      let newQty := max 0 (curQty - closed)
      ({ w with
         positionAvgPrice :=
           if newQty = 0 then Function.update w.positionAvgPrice symbol 0 else w.positionAvgPrice
         positionQty := Function.update w.positionQty symbol newQty },
       if 0 < curQty then closed * (price - curAvg) else 0)

/-- The row of a filled order. -/
def fillRow (w : OrderQueueWorker) (req : OrderRequest) (p : PlacedOrder) (f : OrderFilled)
    (realizedPnl : ℚ) : OrderEvent where
  orderId := f.orderId
  clientOrderId := p.clientOrderId
  strategy := req.strategy
  exchange := f.exchange
  symbol := f.symbol
  side := f.side
  orderType := req.orderType
  status := "filled"
  limitPrice := req.limitPrice.getD 0
  stopPrice := req.stopPrice.getD 0
  takeProfitPrice := req.takeProfitPrice.getD 0
  requestedSize := req.size
  filledSize := f.fillSize
  remainingSize := 0
  avgFillPrice := f.fillPrice
  fee := f.fee
  realizedPnl := realizedPnl
  slippage :=
    if 0 < req.limitPrice.getD 0 then (f.fillPrice - req.limitPrice.getD 0) * f.fillSize else 0
  positionSizeAfter := w.positionNotional f.symbol
  tsExchange := f.tsExchange * 1000

/-- Takes an order out of `openOrders` and releases its notional, which stops at `0`. -/
def release (w : OrderQueueWorker) (id : String) (req : OrderRequest) : OrderQueueWorker :=
  { w with
    positionNotional := Function.update w.positionNotional req.symbol
      (w.positionNotional req.symbol - w.orderNotional req)
    openOrders := w.openOrders.erase id }

/-- Processes a fill event up to the writing of its row. -/
def handleFill (w : OrderQueueWorker) (f : OrderFilled) : OrderQueueWorker × List OrderEffect :=
  if f.orderId ∈ w.seenFillIds then (w, [])
  else
    let seen := { w with seenFillIds := remember w.seenFillIds f.orderId }
    match w.openOrders.lookup f.orderId with
    | none => (seen, [])
    | some (req, p) =>
        let moved := (seen.release f.orderId req).updatePosition f.symbol f.side f.fillSize
          f.fillPrice
        ({ moved.1 with bookings := moved.1.bookings ++ [moved.2] },
          [.writeOrderEvent (moved.1.fillRow req p f moved.2)])

/-! ### Steps -/

/-- From one await to the next. -/
def step : Step OrderQueueWorker Input OrderEffect := fun w i =>
  match i with
  | .post req => ({ w with queue := w.queue ++ [req] }, [])
  | .fill f => w.handleFill f
  | .booked k =>
      match w.bookings[k]? with
      | none => (w, [])
      | some pnl =>
          ({ w with bookings := w.bookings.eraseIdx k },
            if w.tripFired then [] else [.recordPnl pnl])
  | .cancel => ({ w with stage := .ended }, [])
  | .check stop =>
      match w.stage with
      | .top => ({ w with stage := if stop then .ended else .waiting }, [])
      | _ => (w, [])
  | .take =>
      match w.stage, w.queue with
      | .waiting, req :: rest => { w with queue := rest }.process req
      | _, _ => (w, [])
  | .timeout =>
      match w.stage with
      | .waiting => ({ w with stage := .top }, [])
      | _ => (w, [])
  | .response r =>
      match w.stage with
      | .placing req => w.placed req r
      | _ => (w, [])
  | .written =>
      match w.stage with
      | .reporting => ({ w with stage := .top }, [])
      | .persisting req p => (w.insertOpen req p, [])
      | _ => (w, [])

end OrderQueueWorker

end MagnumOpus.Bot
