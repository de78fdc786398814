import MagnumOpus.Bot.OrderWorkerSteps
import MagnumOpus.Lib.LatestBy

/-! # Startup reconciliation

`run_startup_reconciliation` (`reconciliation.py`) rebuilds the open orders of a new worker from two
queries.

* **The table.** The latest row of each order of the strategy, without those that are done.
* **The exchange.** The ids of the orders that are open there; only these are restored.

Without an answer of either, and in paper trading, all rows of the table are restored.  A row has no
column for the exchange of an order or for its stop price.  Its role is read from `signal_type`,
which the worker leaves empty. -/

namespace MagnumOpus.Bot

open LatestBy KeyedSum

/-- The role that a text stands for. -/
def OrderRole.ofText (text : String) : OrderRole :=
  if text = "entry" then .entry
  else if text = "exit" then .exit
  else if text = "stop" then .stop
  else .other text

/-- The statuses of orders that are done. -/
def terminalStatuses : List String := ["filled", "cancelled", "rejected", "failed"]

def queryNonterminalOrders (table : List OrderEvent) (strategyName : String) : List OrderEvent :=
  (latestOn OrderEvent.orderId (table.filter (·.strategy = strategyName))).filter
    (·.status ∉ terminalStatuses)

/-- The request that a row is of. -/
def buildRequest (row : OrderEvent) (strategyName : String) : OrderRequest where
  strategy := strategyName
  exchange := ""
  symbol := row.symbol
  side := row.side
  orderType := row.orderType
  orderRole := .ofText row.signalType
  size := row.requestedSize.toNNRat
  limitPrice := some row.limitPrice
  clientOrderId := row.clientOrderId

def buildPlaced (row : OrderEvent) : PlacedOrder where
  orderId := row.orderId
  clientOrderId := row.clientOrderId
  status := .placed
  tsExchange := 0

/-- A request and its placed order as they are built from a row. -/
def buildFromRow (strategyName : String) (row : OrderEvent) : OrderRequest × PlacedOrder :=
  (buildRequest row strategyName, buildPlaced row)

namespace OrderQueueWorker

def restoreRow (w : OrderQueueWorker) (row : OrderEvent) : OrderQueueWorker :=
  w.restoreOpenOrder row.orderId (buildRequest row w.strategyName) (buildPlaced row)

/-- Restores what the answers of the table and of the exchange tell; `none` is no answer. -/
def startupReconciliation (w : OrderQueueWorker) (paperTrading : Bool)
    (questdb : Option (List OrderEvent)) (exchange : Option (List String)) : OrderQueueWorker :=
  let rows := questdb.getD []
  match paperTrading, questdb, exchange with
  | false, some _, some ids => (rows.filter (·.orderId ∈ ids)).foldl restoreRow w
  | _, _, _ => rows.foldl restoreRow w

variable {w : OrderQueueWorker}

/-! ### Rows -/

/-- The row of an order that is not done. -/
def live (table : List OrderEvent) (strategyName id : String) : Option OrderEvent :=
  (latest OrderEvent.orderId (table.filter (·.strategy = strategyName)) id).filter
    (·.status ∉ terminalStatuses)

@[simp] theorem live_nil (strategyName id : String) : live [] strategyName id = none := rfl

/-- A new row counts for its own order only. -/
theorem live_append_singleton (table : List OrderEvent) (row : OrderEvent)
    (strategyName id : String) :
    live (table ++ [row]) strategyName id =
      if row.strategy = strategyName ∧ row.orderId = id then
        if row.status ∈ terminalStatuses then none else some row
      else live table strategyName id := by
  unfold live
  rw [List.filter_append]
  by_cases hname : row.strategy = strategyName
  · have hrow : [row].filter (·.strategy = strategyName) = [row] := by simp [hname]
    rw [hrow, latest_append_singleton]
    by_cases hid : row.orderId = id
    · by_cases hstatus : row.status ∈ terminalStatuses <;> simp [hname, hid, hstatus]
    · simp [hid]
  · have hrow : [row].filter (·.strategy = strategyName) = [] := by simp [hname]
    rw [hrow, List.append_nil, if_neg fun h => hname h.1]

theorem mem_query_iff {table : List OrderEvent} {strategyName : String} {row : OrderEvent} :
    row ∈ queryNonterminalOrders table strategyName ↔
      live table strategyName row.orderId = some row := by
  rw [queryNonterminalOrders, List.mem_filter, mem_latestOn_iff, live, Option.filter_eq_some_iff]

theorem nodup_query (table : List OrderEvent) (strategyName : String) :
    ((queryNonterminalOrders table strategyName).map OrderEvent.orderId).Nodup :=
  (nodup_latestOn _).sublist (List.filter_sublist.map _)

/-! ### Restored orders -/

theorem Reserves.restoreRow (h : w.Reserves) {row : OrderEvent}
    (hnew : row.orderId ∉ w.openOrders) :
    (w.restoreRow row).Reserves :=
  h.insertOpen (buildRequest row w.strategyName) (p := buildPlaced row) hnew

theorem restoreRows : ∀ (rows : List OrderEvent) (w : OrderQueueWorker),
    (rows.map OrderEvent.orderId).Nodup → (∀ row ∈ rows, row.orderId ∉ w.openOrders) →
    w.Reserves →
      let v := rows.foldl restoreRow w
      v.Reserves ∧ v.positionQty = w.positionQty ∧ v.positionAvgPrice = w.positionAvgPrice ∧
        v.portfolioValueUsd = w.portfolioValueUsd ∧ v.maxPositionPct = w.maxPositionPct ∧
        ∀ id, v.openOrders.lookup id =
          ((rows.find? (·.orderId = id)).map (buildFromRow w.strategyName)).or
            (w.openOrders.lookup id)
  | [], w, _, _, h => ⟨h, rfl, rfl, rfl, rfl, fun _ => rfl⟩
  | row :: rows, w, hnodup, hnew, h => by
      obtain ⟨hrow, hnodup⟩ := List.nodup_cons.mp hnodup
      have hnew' : ∀ row' ∈ rows, row'.orderId ∉ (w.restoreRow row).openOrders := by
        intro row' hrow' hin
        rcases (AList.mem_insert _).mp hin with heq | hin
        · exact hrow (heq ▸ List.mem_map_of_mem hrow')
        · exact hnew row' (List.mem_cons_of_mem _ hrow') hin
      obtain ⟨hreserves, hqty, hprice, hvalue, hpct, hlookup⟩ :=
        restoreRows rows (w.restoreRow row) hnodup hnew'
          (h.restoreRow (hnew row List.mem_cons_self))
      refine ⟨hreserves, hqty, hprice, hvalue, hpct, fun id => ?_⟩
      rw [List.foldl_cons, hlookup id, List.find?_cons]
      by_cases hid : row.orderId = id
      · subst hid
        have hnone : rows.find? (·.orderId = row.orderId) = none := by
          rw [List.find?_eq_none]
          intro row' hrow' heq
          exact hrow (of_decide_eq_true heq ▸ List.mem_map_of_mem hrow')
        have hinsert : (w.restoreRow row).openOrders.lookup row.orderId =
            some (buildFromRow w.strategyName row) := AList.lookup_insert _
        simp [hnone, hinsert]
      · have hinsert : (w.restoreRow row).openOrders.lookup id = w.openOrders.lookup id :=
          AList.lookup_insert_ne (Ne.symm hid)
        rw [hinsert]
        simp [hid, restoreRow, restoreOpenOrder]

end OrderQueueWorker

end MagnumOpus.Bot
