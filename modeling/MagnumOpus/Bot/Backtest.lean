import MagnumOpus.Lib.NetPosition
import MagnumOpus.Bot.Orders

/-! # The backtest runner

`backtest/runner.py`: the requests that a strategy posts become orders of the broker
(`_FakeOrderWorker.post`), and the fills that the broker reports are put together to trades
(`_apply_fill`).  The broker belongs to the backtest library; it is any `Broker`, which keeps one
net position at average cost.  Prices and sizes are exact, and the trades are kept as they are
before they are rounded. -/

namespace MagnumOpus.Bot.Backtest

/-- A broker, as its library documents it: an order that is executed is traded on a net position. -/
structure Broker where
  State : Type
  /-- The broker when the run begins. -/
  start : State
  account : State → NetPosition ℚ
  /-- Executes an order of a signed size at a price. -/
  execute : State → ℚ → ℚ → State
  account_start : account start = {}
  account_execute : ∀ s q p, account (execute s q p) = (account s).trade q p

/-- The broker that is nothing but its account. -/
def netBroker : Broker where
  State := NetPosition ℚ
  start := {}
  account := id
  execute := NetPosition.trade
  account_start := rfl
  account_execute := fun _ _ _ => rfl

/-! ### Orders -/

/-- The account's value: the capital, what was realised and what is open. -/
def getvalue (capital : ℚ) (a : NetPosition ℚ) (price : ℚ) : ℚ :=
  capital + a.realised + a.openProfit price

/-- The signed size of the order that a request becomes, when it becomes one. -/
def post (capital : ℚ) (a : NetPosition ℚ) (req : OrderRequest) (price : ℚ) : Option ℚ :=
  if price ≤ 0 then none
  else
    let units := getvalue capital a price * req.size / price
    let pos := a.size
    match req.side with
    | .buy =>
        if req.orderRole = .exit ∧ pos < 0 then some |pos|
        else if req.orderRole ≠ .exit ∧ 0 < units then some units
        else none
    | .sell =>
        if req.orderRole = .exit ∧ 0 < pos then some (-pos)
        else if req.orderRole ≠ .exit ∧ 0 < units then some (-units)
        else none

/-! ### Trades -/

/-- The share of its value that an order costs: every order pays the taker's rate of its
exchange. -/
def commissionRate (exchange : String) : ℚ :=
  let name := String.ofList (exchange.toList.map Char.toLower)
  if name = "kucoin" then mkRat 1 1000
  else if name = "bybit" then mkRat 6 10000
  else 0

def getcommission (exchange : String) (size price : ℚ) : ℚ :=
  |size| * price * commissionRate exchange

/-- What a completed order tells about its execution. -/
structure Fill where
  barDt : String
  price : ℚ
  /-- Positive for a buy, negative for a sell. -/
  size : ℚ
  price_pos : 0 < price
  size_ne : size ≠ 0

structure PendingEntry where
  entryTs : String
  entryPrice : ℚ
  entrySize : ℚ
  entryComm : ℚ
deriving DecidableEq

structure Trade where
  entryTs : String
  exitTs : String
  entryPrice : ℚ
  exitPrice : ℚ
  size : ℚ
  pnl : ℚ
  pnlNet : ℚ
  direction : String
deriving DecidableEq

structure TradeLog where
  totalFees : ℚ := 0
  trades : List Trade := []
  pendingEntry : Option PendingEntry := none
deriving DecidableEq

def closeTrade (exchange : String) (e : PendingEntry) (f : Fill) : Trade :=
  let size := |f.size|
  let pnl := (f.price - e.entryPrice) * size
  { entryTs := e.entryTs
    exitTs := f.barDt
    entryPrice := e.entryPrice
    exitPrice := f.price
    size := size
    pnl := pnl
    pnlNet := pnl - e.entryComm - |getcommission exchange f.size f.price|
    direction := "long" }

/-- The handler of fills: a buy becomes the pending entry, a sell closes it. -/
def applyFill (exchange : String) (s : TradeLog) (f : Fill) : TradeLog :=
  let comm := |getcommission exchange f.size f.price|
  let charged := { s with totalFees := s.totalFees + comm }
  if 0 < f.size then
    { charged with
      pendingEntry := some
        { entryTs := f.barDt
          entryPrice := f.price
          entrySize := |f.size|
          entryComm := comm } }
  else
    match s.pendingEntry with
    | none => charged
    | some e =>
        { charged with trades := s.trades ++ [closeTrade exchange e f], pendingEntry := none }

end MagnumOpus.Bot.Backtest
