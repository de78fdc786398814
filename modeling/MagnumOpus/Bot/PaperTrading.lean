import MagnumOpus.Bot.OrderWorkerSteps
import MagnumOpus.Lib.NetPosition

/-! # Paper trading

The paper client (`exchange/paper.py`) places every order and fills it whole; the order worker books
the fill.  A request that the idle worker admits is a trade on the one position that it keeps
(`books_step`): the worker refines a `NetPosition` under the rule `paperRule`. -/

namespace MagnumOpus.Bot

open EventMachine KeyedSum

/-! ### The client -/

structure PaperExchangeClient where
  exchange : String
  slippageBps : ℚ

namespace PaperExchangeClient

def placeOrder (orderId : String) (tsExchange : ℤ) (req : OrderRequest) : PlacedOrder where
  orderId := orderId
  clientOrderId := req.clientOrderId
  status := .placed
  tsExchange := tsExchange

/-- The limit price, whether or not it was crossed. -/
def resolveLimitPrice (req : OrderRequest) : ℚ := req.limitPrice.getD 0

/-- The last close, moved by the slippage. -/
def resolveMarketPrice (c : PaperExchangeClient) (req : OrderRequest) (close : ℚ) : ℚ :=
  let slippage := c.slippageBps * mkRat 1 10000
  match req.side with
  | .buy => close * (1 + slippage)
  | .sell => close * (1 - slippage)

/-- The fill of a placed order. -/
def simulateFill (c : PaperExchangeClient) (req : OrderRequest) (placed : PlacedOrder)
    (close : ℚ) (tsExchange : ℤ) : OrderFilled where
  orderId := placed.orderId
  exchange := c.exchange
  symbol := req.symbol
  side := req.side
  fillPrice :=
    if req.orderType = "market" then c.resolveMarketPrice req close else resolveLimitPrice req
  fillSize := req.size
  fee := 0
  tsExchange := tsExchange

end PaperExchangeClient

/-! ### A run -/

/-- What both a paper run and a backtest of a strategy are set up with. -/
structure Setup where
  strategyName : String
  exchange : String
  symbol : String
  maxPositionPct : ℚ≥0
  portfolioValueUsd : ℚ≥0
  maxOrderNotionalUsd : ℚ
  /-- The cash of the backtest. -/
  capital : ℚ
  /-- The ids that the paper client draws. -/
  orderId : ℕ → String
  now : ℕ → ℤ
  capital_pos : 0 < capital
  fresh : Function.Injective orderId

namespace Setup

variable (s : Setup)

/-- The client without slippage. -/
def client : PaperExchangeClient where
  exchange := s.exchange
  slippageBps := 0

def worker : OrderQueueWorker :=
  .new s.strategyName s.maxPositionPct s.portfolioValueUsd s.maxOrderNotionalUsd

/-- A request of the strategy at a price, which is its limit unless it goes to the market. -/
def request (r : OrderRequest) (price : ℚ) : OrderRequest :=
  { r with
    symbol := s.symbol
    limitPrice := if r.orderType = "market" then r.limitPrice else some price }

/-- What happens to the worker from one request to the next. -/
def inputs (n : ℕ) (w : OrderQueueWorker) (req : OrderRequest) (price : ℚ) : List Input :=
  let placed := PaperExchangeClient.placeOrder (s.orderId n) (s.now n) req
  [.post req, .check false, .take] ++
    if w.admits req then
      [.response (.returned placed), .written,
        .fill (s.client.simulateFill req placed price (s.now n)), .booked 0]
    else []

/-- One request after the other, each at its price. -/
def paperStep : Step (ℕ × OrderQueueWorker) (OrderRequest × ℚ) OrderEffect := fun st e =>
  let is := s.inputs st.1 st.2 (s.request e.1 e.2) e.2
  ((st.1 + 1, final OrderQueueWorker.step st.2 is), trace OrderQueueWorker.step st.2 is)

end Setup

/-- The profit in the rows of filled orders. -/
def bookedPnl (effects : List OrderEffect) : ℚ :=
  (effects.filterMap fun
    | .writeOrderEvent row => if row.status = "filled" then some row.realizedPnl else none
    | _ => none).sum

/-- The realised profit that a paper run books. -/
def paperPnl (s : Setup) (es : List (OrderRequest × ℚ)) : ℚ :=
  bookedPnl (trace s.paperStep (0, s.worker) es)

/-! ### The position -/

variable {s : Setup} {n : ℕ} {w : OrderQueueWorker} {a : NetPosition ℚ}

/-- The worker lets the request through when nothing is open. -/
def Setup.admitted (s : Setup) (r : OrderRequest) : Bool := s.worker.admits (s.request r 0)

/-- The signed quantity of a request: the fraction itself, and a sell closes no more than is
held. -/
def paperQuantity (a : NetPosition ℚ) : OrderSide → ℚ≥0 → ℚ
  | .buy, f => f
  | .sell, f => -min (f : ℚ) a.size

/-- What a request trades. -/
def paperRule (s : Setup) (a : NetPosition ℚ) (r : OrderRequest) (_ : ℚ) : Option ℚ :=
  if s.admitted r then some (paperQuantity a r.side r.size) else none

/-- The worker is idle and keeps the position `a`; `n` orders have been placed at most. -/
structure Books (s : Setup) (n : ℕ) (w : OrderQueueWorker) (a : NetPosition ℚ) : Prop where
  maxPositionPct : w.maxPositionPct = s.maxPositionPct
  portfolioValueUsd : w.portfolioValueUsd = s.portfolioValueUsd
  maxOrderNotionalUsd : w.maxOrderNotionalUsd = s.maxOrderNotionalUsd
  queue : w.queue = []
  openOrders : w.openOrders = ∅
  positionNotional : w.positionNotional s.symbol = 0
  positionQty : w.positionQty s.symbol = a.size
  positionAvgPrice : w.positionAvgPrice s.symbol = a.avgPrice
  seenFillIds : ∀ id ∈ w.seenFillIds, ∃ m < n, id = s.orderId m
  stage : w.stage = .top
  bookings : w.bookings = []
  held : 0 ≤ a.size
  flat : a.size = 0 → a.avgPrice = 0

theorem books_new (s : Setup) : Books s 0 s.worker {} where
  maxPositionPct := rfl
  portfolioValueUsd := rfl
  maxOrderNotionalUsd := rfl
  queue := rfl
  openOrders := rfl
  positionNotional := rfl
  positionQty := rfl
  positionAvgPrice := rfl
  seenFillIds := fun _ h => absurd h List.not_mem_nil
  stage := rfl
  bookings := rfl
  held := le_rfl
  flat := fun _ => rfl

theorem Books.admits (h : Books s n w a) (r : OrderRequest) (p : ℚ) :
    w.admits (s.request r p) = s.admitted r := by
  have hnotional : s.worker.positionNotional s.symbol = 0 := rfl
  simp only [Setup.admitted, OrderQueueWorker.admits, OrderQueueWorker.isEntryDedup,
    OrderQueueWorker.exceedsHardLimit, OrderQueueWorker.exceedsRiskGate,
    OrderQueueWorker.orderNotional, Setup.request, h.openOrders, h.positionNotional, hnotional,
    h.maxPositionPct, h.portfolioValueUsd, h.maxOrderNotionalUsd]
  rfl

theorem paperStep_blocked {r : OrderRequest} {p : ℚ} (h : Books s n w a)
    (hblocked : s.admitted r = false) :
    s.paperStep (n, w) (r, p) = ((n + 1, w), []) := by
  have hadm : w.admits (s.request r p) = false := by rw [h.admits, hblocked]
  have hadm' : ∀ queue stage,
      OrderQueueWorker.admits { w with queue, stage } (s.request r p) = false := fun _ _ => hadm
  obtain ⟨-, -, -, hqueue, -, -, -, -, -, hstage, -, -, -⟩ := h
  cases w
  simp only at hqueue hstage
  subst hqueue hstage
  simp [Setup.paperStep, Setup.inputs, hadm, OrderQueueWorker.step, OrderQueueWorker.process,
    hadm']

/-- The fill that an admitted request gets. -/
def Setup.fill (s : Setup) (n : ℕ) (r : OrderRequest) (p : ℚ) : OrderFilled :=
  let req := s.request r p
  s.client.simulateFill req (PaperExchangeClient.placeOrder (s.orderId n) (s.now n) req) p (s.now n)

theorem fillPrice_fill (s : Setup) (n : ℕ) (r : OrderRequest) (p : ℚ) :
    (s.fill n r p).fillPrice = p := by
  by_cases hmarket : r.orderType = "market"
  · cases hside : r.side <;>
      simp [Setup.fill, PaperExchangeClient.simulateFill, Setup.request, hmarket,
        PaperExchangeClient.resolveMarketPrice, Setup.client, hside]
  · simp [Setup.fill, PaperExchangeClient.simulateFill, Setup.request, hmarket,
      PaperExchangeClient.resolveLimitPrice]

theorem bookedPnl_append (l l' : List OrderEffect) :
    bookedPnl (l ++ l') = bookedPnl l + bookedPnl l' := by
  rw [bookedPnl, List.filterMap_append, List.sum_append]
  rfl

theorem placed_run {req : OrderRequest} (placed : PlacedOrder) (h : Books s n w a)
    (hadm : w.admits req = true) (hplaced : placed.status = .placed) :
    let is : List Input :=
      [.post req, .check false, .take, .response (.returned placed), .written]
    final OrderQueueWorker.step w is = w.insertOpen req placed ∧
      bookedPnl (trace OrderQueueWorker.step w is) = 0 := by
  have hkeep : ∀ queue stage,
      OrderQueueWorker.admits { w with queue, stage } req = true := fun _ _ => hadm
  have hqueue := h.queue
  have hstage := h.stage
  cases w
  simp only at hqueue hstage
  subst hqueue hstage
  refine ⟨?_, ?_⟩
  · simp only [final_cons, final_nil, OrderQueueWorker.step, OrderQueueWorker.process,
      OrderQueueWorker.placed, List.nil_append, hkeep, hplaced, if_true, Bool.false_eq_true,
      if_false]
    rfl
  · simp [OrderQueueWorker.step, OrderQueueWorker.process,
      OrderQueueWorker.placed, hkeep, hplaced, bookedPnl, OrderQueueWorker.orderRow]

theorem step_booked {v : OrderQueueWorker} (hbookings : v.bookings = []) (pnl : ℚ) :
    OrderQueueWorker.step { v with bookings := [pnl] } (.booked 0) =
      (v, if v.tripFired then [] else [.recordPnl pnl]) := by
  cases v
  cases hbookings
  rfl

theorem updatePosition_bookings (v : OrderQueueWorker) (symbol : String) (side : OrderSide)
    (qty price : ℚ) : (v.updatePosition symbol side qty price).1.bookings = v.bookings := by
  cases side <;> rfl

/-- The fill of an open order, until its row is written. -/
theorem filled_run {v : OrderQueueWorker} {f : OrderFilled} {o : OrderRequest × PlacedOrder}
    (hopen : v.openOrders.lookup f.orderId = some o) (hnew : f.orderId ∉ v.seenFillIds)
    (hbookings : v.bookings = []) :
    let seen := { v with seenFillIds := OrderQueueWorker.remember v.seenFillIds f.orderId }
    let moved := (seen.release f.orderId o.1).updatePosition f.symbol f.side f.fillSize f.fillPrice
    let is : List Input := [.fill f, .booked 0]
    final OrderQueueWorker.step v is = moved.1 ∧
      bookedPnl (trace OrderQueueWorker.step v is) = moved.2 := by
  intro seen moved is
  have hmoved : moved.1.bookings = [] := (updatePosition_bookings _ _ _ _ _).trans hbookings
  have hfill : OrderQueueWorker.step v (.fill f) =
      ({ moved.1 with bookings := [moved.2] },
        [.writeOrderEvent (moved.1.fillRow o.1 o.2 f moved.2)]) := by
    have hstep : OrderQueueWorker.step v (.fill f) =
        ({ moved.1 with bookings := moved.1.bookings ++ [moved.2] },
          [.writeOrderEvent (moved.1.fillRow o.1 o.2 f moved.2)]) := by
      simp only [OrderQueueWorker.step, OrderQueueWorker.handleFill, if_neg hnew, hopen]
      rfl
    rw [hstep, hmoved]
    rfl
  refine ⟨?_, ?_⟩
  · rw [final_cons, hfill, final_cons, step_booked hmoved, final_nil]
  · rw [trace_cons, hfill, trace_cons, step_booked hmoved, trace_nil]
    cases hfired : moved.1.tripFired <;> simp [bookedPnl, OrderQueueWorker.fillRow]

/-- The worker once an admitted request has been filled, before its position moves. -/
def settled (s : Setup) (n : ℕ) (w : OrderQueueWorker) (req : OrderRequest) : OrderQueueWorker :=
  let placed := PaperExchangeClient.placeOrder (s.orderId n) (s.now n) req
  OrderQueueWorker.release
    { w.insertOpen req placed with
      seenFillIds := OrderQueueWorker.remember w.seenFillIds placed.orderId }
    placed.orderId req

/-- An admitted request is placed and filled: nothing is left of it but the move of the position. -/
theorem paperStep_admitted {r : OrderRequest} {p : ℚ} (h : Books s n w a)
    (hadm : s.admitted r = true) :
    let moved := (settled s n w (s.request r p)).updatePosition s.symbol r.side r.size p
    (s.paperStep (n, w) (r, p)).1 = (n + 1, moved.1) ∧
      bookedPnl (s.paperStep (n, w) (r, p)).2 = moved.2 := by
  intro moved
  have hadm' : w.admits (s.request r p) = true := by rw [h.admits, hadm]
  have hnew : s.orderId n ∉ w.seenFillIds := by
    intro hmem
    obtain ⟨m, hm, hid⟩ := h.seenFillIds _ hmem
    exact hm.ne (s.fresh hid).symm
  let placed := PaperExchangeClient.placeOrder (s.orderId n) (s.now n) (s.request r p)
  obtain ⟨hplaced, hplacedPnl⟩ := placed_run placed h hadm' rfl
  have hopen : (w.insertOpen (s.request r p) placed).openOrders.lookup (s.fill n r p).orderId =
      some (s.request r p, placed) := AList.lookup_insert _
  obtain ⟨hfilled, hfilledPnl⟩ := filled_run hopen hnew h.bookings
  rw [fillPrice_fill] at hfilled hfilledPnl
  have hinputs : s.inputs n w (s.request r p) p =
      [.post (s.request r p), .check false, .take, .response (.returned placed), .written] ++
        [.fill (s.fill n r p), .booked 0] := by
    simp only [Setup.inputs, hadm', if_true]
    rfl
  refine ⟨?_, ?_⟩
  · rw [Setup.paperStep]
    simp only
    rw [hinputs, final_append, hplaced, hfilled]
    rfl
  · rw [Setup.paperStep]
    simp only
    rw [hinputs, trace_append, bookedPnl_append, hplacedPnl, hplaced, hfilledPnl, zero_add]
    rfl

theorem books_settled (h : Books s n w a) (r : OrderRequest) (p : ℚ) :
    Books s (n + 1) (settled s n w (s.request r p)) a where
  maxPositionPct := h.maxPositionPct
  portfolioValueUsd := h.portfolioValueUsd
  maxOrderNotionalUsd := h.maxOrderNotionalUsd
  queue := h.queue
  openOrders := by
    show (w.openOrders.insert (s.orderId n) _).erase (s.orderId n) = ∅
    rw [h.openOrders, AList.insert_empty]
    exact AList.ext (List.kerase_cons_eq rfl)
  positionNotional := by
    have hcancel : ∀ x : ℚ≥0, (0 + x) - x = 0 := fun x => by rw [zero_add, tsub_self]
    simp only [settled, OrderQueueWorker.release, OrderQueueWorker.insertOpen, Setup.request,
      Function.update_self, h.positionNotional]
    exact hcancel _
  positionQty := h.positionQty
  positionAvgPrice := h.positionAvgPrice
  seenFillIds := by
    intro id hid
    rcases OrderQueueWorker.mem_of_mem_remember hid with hid | rfl
    · obtain ⟨m, hm, rfl⟩ := h.seenFillIds id hid
      exact ⟨m, hm.trans n.lt_succ_self, rfl⟩
    · exact ⟨n, n.lt_succ_self, rfl⟩
  stage := rfl
  bookings := h.bookings
  held := h.held
  flat := h.flat

theorem trade_sell {f p : ℚ} (hheld : 0 ≤ a.size) (hflat : a.size = 0 → a.avgPrice = 0)
    (hf : 0 ≤ f) :
    a.trade (-min f a.size) p =
      { size := a.size - min f a.size
        avgPrice := if a.size - min f a.size = 0 then 0 else a.avgPrice
        realised := a.realised + min f a.size * (p - a.avgPrice) } := by
  have hrest : 0 ≤ a.size - min f a.size := sub_nonneg.mpr (min_le_right f a.size)
  rcases (le_min hf hheld).eq_or_lt with hzero | hpos
  · rw [← hzero, neg_zero, NetPosition.trade_zero hflat, sub_zero, zero_mul, add_zero]
    by_cases hsize : a.size = 0
    · rw [if_pos hsize, ← hflat hsize]
    · rw [if_neg hsize]
  · have hsize : 0 < a.size := hpos.trans_le (min_le_right f a.size)
    have hneg : ¬ 0 ≤ a.size * -min f a.size :=
      not_le.mpr (mul_neg_of_pos_of_neg hsize (neg_neg_of_pos hpos))
    have hclose : 0 ≤ a.size * (a.size - min f a.size) := mul_nonneg hsize.le hrest
    simp only [NetPosition.trade, if_neg hneg, ← sub_eq_add_neg, if_pos hclose, neg_mul,
      sub_neg_eq_add]

theorem Books.update {v : OrderQueueWorker} {b : NetPosition ℚ} (h : Books s n v a)
    (side : OrderSide) (qty p : ℚ)
    (hqty : (v.updatePosition s.symbol side qty p).1.positionQty s.symbol = b.size)
    (havg : (v.updatePosition s.symbol side qty p).1.positionAvgPrice s.symbol = b.avgPrice)
    (hheld : 0 ≤ b.size) (hflat : b.size = 0 → b.avgPrice = 0) :
    Books s n (v.updatePosition s.symbol side qty p).1 b := by
  cases side
  all_goals exact ⟨h.maxPositionPct, h.portfolioValueUsd, h.maxOrderNotionalUsd, h.queue,
    h.openOrders, h.positionNotional, hqty, havg, h.seenFillIds, h.stage, h.bookings, hheld, hflat⟩

/-- The position of the worker moves as the rule has it. -/
theorem books_updatePosition {v : OrderQueueWorker} (h : Books s n v a) (side : OrderSide)
    (f : ℚ≥0) (p : ℚ) :
    let moved := v.updatePosition s.symbol side f p
    Books s n moved.1 (a.trade (paperQuantity a side f) p) ∧
      a.realised + moved.2 = (a.trade (paperQuantity a side f) p).realised := by
  have hf : (0 : ℚ) ≤ f := f.2
  cases side with
  | buy =>
      have htrade : a.trade f p =
          { size := a.size + f
            avgPrice := if a.size + f = 0 then 0 else (a.avgPrice * a.size + p * f) / (a.size + f)
            realised := a.realised } := by
        simp only [NetPosition.trade, if_pos (mul_nonneg h.held hf)]
      rw [paperQuantity, htrade]
      refine ⟨h.update .buy f p ?_ ?_ (add_nonneg h.held hf) fun hsize => if_pos hsize, add_zero _⟩
      · simp only [OrderQueueWorker.updatePosition, Function.update_self, h.positionQty]
      · simp only [OrderQueueWorker.updatePosition, Function.update_self, h.positionQty,
          h.positionAvgPrice, ite_not]
  | sell =>
      have hrest : 0 ≤ a.size - min (f : ℚ) a.size := sub_nonneg.mpr (min_le_right _ _)
      rw [paperQuantity, trade_sell h.held h.flat hf]
      refine ⟨h.update .sell f p ?_ ?_ hrest fun hsize => if_pos hsize, ?_⟩
      · simp only [OrderQueueWorker.updatePosition, Function.update_self, h.positionQty,
          max_eq_right hrest]
      · simp only [OrderQueueWorker.updatePosition, h.positionQty, max_eq_right hrest]
        split
        · rw [Function.update_self]
        · exact h.positionAvgPrice
      · simp only [OrderQueueWorker.updatePosition, h.positionQty, h.positionAvgPrice]
        by_cases hsize : 0 < a.size
        · rw [if_pos hsize]
        · have hzero : a.size = 0 := le_antisymm (not_lt.mp hsize) h.held
          rw [if_neg hsize, hzero, min_eq_right hf, zero_mul]

/-- **A request is a trade of the position**, with the profit that is booked. -/
theorem books_step (h : Books s n w a) (r : OrderRequest) (p : ℚ) :
    let b := (paperRule s a r p).elim a fun q => a.trade q p
    let st := s.paperStep (n, w) (r, p)
    Books s (n + 1) st.1.2 b ∧ a.realised + bookedPnl st.2 = b.realised := by
  by_cases hadm : s.admitted r = true
  · obtain ⟨hstep, hpnl⟩ := paperStep_admitted (p := p) h hadm
    obtain ⟨hbooks, hrealised⟩ := books_updatePosition (books_settled h r p) r.side r.size p
    simp only [paperRule, if_pos hadm, Option.elim_some]
    rw [hstep, hpnl]
    exact ⟨hbooks, hrealised⟩
  · have hblocked : s.admitted r = false := Bool.eq_false_iff.mpr hadm
    simp only [paperRule, if_neg hadm, Option.elim_none, paperStep_blocked h hblocked]
    refine ⟨{ h with seenFillIds := ?_ }, add_zero _⟩
    intro id hid
    obtain ⟨m, hm, rfl⟩ := h.seenFillIds id hid
    exact ⟨m, hm.trans n.lt_succ_self, rfl⟩

theorem books_run (es : List (OrderRequest × ℚ)) (h : Books s n w a) :
    a.realised + bookedPnl (trace s.paperStep (n, w) es) =
      (a.follow (paperRule s) es).realised := by
  induction es generalizing n w a with
  | nil => exact add_zero _
  | cons e es ih =>
      obtain ⟨hbooks, hpnl⟩ := books_step h e.1 e.2
      rw [NetPosition.follow, ← ih hbooks, trace_cons, bookedPnl_append, ← add_assoc, hpnl]
      rfl

theorem paperPnl_eq (s : Setup) (es : List (OrderRequest × ℚ)) :
    paperPnl s es = (NetPosition.follow (paperRule s) {} es).realised := by
  rw [← books_run es (books_new s), paperPnl]
  exact (zero_add _).symm

end MagnumOpus.Bot
