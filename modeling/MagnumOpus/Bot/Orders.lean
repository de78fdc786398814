import Mathlib.Algebra.Order.Field.Rat
import Mathlib.Algebra.Order.Ring.NNRat

/-! # Orders of the bot service

The values that strategies, order workers and exchange clients hand to each other
(`exchange/__init__.py`, `event_types.py`), and the rows of the `order_events` table.  Prices and
sizes are exact numbers here, where the code has floats.  The size of a request is a fraction of
the portfolio, so it is not negative. -/

namespace MagnumOpus.Bot

inductive OrderSide where
  | buy
  | sell
deriving DecidableEq, Repr

inductive OrderRole where
  | entry
  | exit
  | stop
  /-- Any other text, such as that of a row without a role. -/
  | other (text : String)
deriving DecidableEq, Repr

/-- A value posted to the order queue by a strategy. -/
structure OrderRequest where
  strategy : String
  exchange : String
  symbol : String
  side : OrderSide
  orderType : String
  orderRole : OrderRole
  /-- A fraction of the portfolio. -/
  size : ℚ≥0
  limitPrice : Option ℚ := none
  stopPrice : Option ℚ := none
  takeProfitPrice : Option ℚ := none
  clientOrderId : String := ""
deriving DecidableEq

inductive PlacedStatus where
  | placed
  | rejected
deriving DecidableEq, Repr

/-- What `place_order` returns on success. -/
structure PlacedOrder where
  orderId : String
  clientOrderId : String
  status : PlacedStatus
  /-- Milliseconds, from the exchange. -/
  tsExchange : ℤ
deriving DecidableEq

/-- A fill event. -/
structure OrderFilled where
  orderId : String
  exchange : String
  symbol : String
  side : OrderSide
  fillPrice : ℚ
  fillSize : ℚ
  fee : ℚ
  tsExchange : ℤ
deriving DecidableEq

/-- A row of the `order_events` table. -/
structure OrderEvent where
  orderId : String
  clientOrderId : String
  strategy : String
  exchange : String
  symbol : String
  side : OrderSide
  orderType : String
  status : String
  limitPrice : ℚ
  stopPrice : ℚ
  takeProfitPrice : ℚ
  requestedSize : ℚ
  filledSize : ℚ
  remainingSize : ℚ
  avgFillPrice : ℚ
  fee : ℚ
  realizedPnl : ℚ
  slippage : ℚ
  positionSizeAfter : ℚ
  /-- The role of the order; the worker does not fill it in. -/
  signalType : String := ""
  /-- Microseconds. -/
  tsExchange : ℤ
deriving DecidableEq

end MagnumOpus.Bot
