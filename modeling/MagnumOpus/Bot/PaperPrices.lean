import MagnumOpus.Bot.CostBasis
import MagnumOpus.Bot.PaperTrading
import Mathlib.Tactic.Linarith
import Mathlib.Tactic.Positivity

/-! # The prices of paper fills

Where the paper client (`exchange/paper.py`) takes the price of a fill from, and where the price
goes.

* **Market orders.** The last entry of two streams is read, the closes of the one minute candles and
  the mid prices of the order book; the first positive number counts, moved by the slippage.  When
  neither stream has one the price is `0`.  A lookup that fails makes no fill.
* **Other orders.** The price is the limit, and `0` without one.

A paper run (`paperRunStep`) is an order worker with the client in place of the exchange: the client
answers its orders, and later delivers their fills.  Texts of numbers are read by a given function;
one that is not a finite number has no value. -/

namespace MagnumOpus.Bot

open EventMachine KeyedSum

/-! ### The streams -/

/-- What comes of reading the last entry of a stream. -/
inductive StreamRead where
  | failed
  | empty
  | latest (fields : List (String × String))
deriving DecidableEq

/-- What the streams come to when a price is looked up. -/
structure PriceStreams where
  /-- `candles:close:{exchange}:{symbol}:1m`. -/
  closes : StreamRead
  /-- `candles:ob:{exchange}:{symbol}`. -/
  books : StreamRead
deriving DecidableEq

section Streams

variable (parse : String → Option ℚ)

/-- The number in a field, when there is a positive one. -/
def positiveField (fields : List (String × String)) (fieldName : String) : Option ℚ :=
  (fields.lookup fieldName).bind fun raw =>
    if raw = "" then none
    else match parse raw with
      | some val => if 0 < val then some val else none
      | none => none

/-- The loop over the streams; `none` when it raises, `0` when no price is found. -/
def syncFetch : List (StreamRead × List String) → Option ℚ
  | [] => some 0
  | (.failed, _) :: _ => none
  | (.empty, _) :: rest => syncFetch rest
  | (.latest fields, fieldNames) :: rest =>
      match fieldNames.findSome? (positiveField parse fields) with
      | some val => some val
      | none => syncFetch rest

def PriceStreams.streamsAndFields (s : PriceStreams) : List (StreamRead × List String) :=
  [(s.closes, ["close"]), (s.books, ["mid_price"])]

/-- The positive number in a field of the last entry. -/
def StreamRead.price (fieldName : String) : StreamRead → Option ℚ
  | .latest fields => positiveField parse fields fieldName
  | _ => none

/-- The number is read from the closes, or from the books when the closes have none. -/
def PriceStreams.Reads (s : PriceStreams) (val : ℚ) : Prop :=
  s.closes.price parse "close" = some val ∨
    s.closes ≠ .failed ∧ s.closes.price parse "close" = none ∧
      s.books.price parse "mid_price" = some val

/-- Both streams are there, and neither has a price. -/
def PriceStreams.Missing (s : PriceStreams) : Prop :=
  s.closes ≠ .failed ∧ s.closes.price parse "close" = none ∧
    s.books ≠ .failed ∧ s.books.price parse "mid_price" = none

end Streams

/-! ### Fills -/

namespace PaperExchangeClient

variable (parse : String → Option ℚ) (c : PaperExchangeClient)

/-- The fill that is delivered for an order, unless the lookup fails.  The slippage of the price `0`
is `0`, which the code returns at once. -/
def deliver (req : OrderRequest) (placed : PlacedOrder) (streams : PriceStreams)
    (tsExchange : ℤ) : Option OrderFilled :=
  if req.orderType = "market" then
    (syncFetch parse streams.streamsAndFields).map fun close =>
      c.simulateFill req placed close tsExchange
  else some (c.simulateFill req placed 0 tsExchange)

/-- The price is read from a stream and moved by the slippage, or it is the limit of the order. -/
def Priced (req : OrderRequest) (streams : PriceStreams) (price : ℚ) : Prop :=
  if req.orderType = "market" then
    ∃ val, streams.Reads parse val ∧ price = c.resolveMarketPrice req val
  else req.limitPrice = some price

/-- There is no price for the order. -/
def Unpriced (req : OrderRequest) (streams : PriceStreams) : Prop :=
  if req.orderType = "market" then streams.Missing parse else req.limitPrice = none

end PaperExchangeClient

/-! ### Runs -/

/-- An order worker and the orders that the client has yet to fill. -/
structure PaperRun where
  worker : OrderQueueWorker
  pending : List (OrderRequest × PlacedOrder)

/-- Something that happens in a paper run. -/
inductive PaperEvent where
  /-- Something that does not come from the client. -/
  | worker (input : Input)
  /-- The client answers an order. -/
  | place (orderId : String) (tsExchange : ℤ)
  /-- The simulated latency of a pending order is over. -/
  | fill (k : ℕ) (streams : PriceStreams) (tsExchange : ℤ)

inductive PaperEffect where
  | worker (effect : OrderEffect)
  | delivered (req : OrderRequest) (streams : PriceStreams) (f : OrderFilled)
deriving DecidableEq

def paperRunStep (parse : String → Option ℚ) (c : PaperExchangeClient) :
    Step PaperRun PaperEvent PaperEffect := fun s e =>
  match e with
  | .worker (.fill _) => (s, [])
  | .worker (.response _) => (s, [])
  | .worker input =>
      let r := s.worker.step input
      ({ s with worker := r.1 }, r.2.map .worker)
  | .place orderId tsExchange =>
      match s.worker.stage with
      | .placing req =>
          let placed := PaperExchangeClient.placeOrder orderId tsExchange req
          let r := s.worker.step (.response (.returned placed))
          (⟨r.1, s.pending ++ [(req, placed)]⟩, r.2.map .worker)
      | _ => (s, [])
  | .fill k streams tsExchange =>
      match s.pending[k]? with
      | none => (s, [])
      | some (req, placed) =>
          let left := { s with pending := s.pending.eraseIdx k }
          match c.deliver parse req placed streams tsExchange with
          -- The lookup has failed; the task ends with a log line.
          | none => (left, [])
          | some f =>
              let r := s.worker.step (.fill f)
              ({ left with worker := r.1 }, .delivered req streams f :: r.2.map .worker)

/-- The rows of filled orders that a paper run writes. -/
def writtenRows (effects : List PaperEffect) : List OrderEvent :=
  OrderQueueWorker.filledRows (effects.filterMap fun
    | .worker e => some e
    | .delivered _ _ _ => none)

section Prices

variable {parse : String → Option ℚ} {c : PaperExchangeClient}

/-! ### Where a price comes from -/

theorem positiveField_pos {fields : List (String × String)} {fieldName : String} {val : ℚ}
    (h : positiveField parse fields fieldName = some val) : 0 < val := by
  obtain ⟨raw, -, hraw⟩ := Option.bind_eq_some_iff.mp h
  split at hraw
  · cases hraw
  · split at hraw
    · split at hraw
      · next hpos =>
          obtain rfl := Option.some.inj hraw
          exact hpos
      · cases hraw
    · cases hraw

theorem StreamRead.price_pos {read : StreamRead} {fieldName : String} {val : ℚ}
    (h : read.price parse fieldName = some val) : 0 < val := by
  cases read with
  | latest fields => exact positiveField_pos h
  | failed => cases h
  | empty => cases h

theorem PriceStreams.Reads.pos {s : PriceStreams} {val : ℚ} (h : s.Reads parse val) : 0 < val :=
  h.elim StreamRead.price_pos fun h => StreamRead.price_pos h.2.2

theorem syncFetch_cons {read : StreamRead} (hread : read ≠ .failed) (fieldName : String)
    (rest : List (StreamRead × List String)) :
    syncFetch parse ((read, [fieldName]) :: rest) =
      (read.price parse fieldName).elim (syncFetch parse rest) some := by
  cases read with
  | failed => exact absurd rfl hread
  | empty => rfl
  | latest fields =>
      simp only [syncFetch, StreamRead.price, List.findSome?_cons, List.findSome?_nil]
      cases positiveField parse fields fieldName <;> rfl

theorem syncFetch_eq_some {s : PriceStreams} {val : ℚ}
    (h : syncFetch parse s.streamsAndFields = some val) :
    s.Reads parse val ∨ s.Missing parse ∧ val = 0 := by
  by_cases hcloses : s.closes = .failed
  · simp [PriceStreams.streamsAndFields, hcloses, syncFetch] at h
  rw [PriceStreams.streamsAndFields, syncFetch_cons hcloses] at h
  cases hclose : s.closes.price parse "close" with
  | some close =>
      rw [hclose] at h
      exact .inl (.inl (hclose.trans h))
  | none =>
      rw [hclose, Option.elim_none] at h
      by_cases hbooks : s.books = .failed
      · simp [hbooks, syncFetch] at h
      rw [syncFetch_cons hbooks] at h
      cases hmid : s.books.price parse "mid_price" with
      | some mid =>
          rw [hmid] at h
          exact .inl (.inr ⟨hcloses, hclose, hmid.trans h⟩)
      | none =>
          rw [hmid] at h
          exact .inr ⟨⟨hcloses, hclose, hbooks, hmid⟩, (Option.some.inj h).symm⟩

theorem resolveMarketPrice_zero (c : PaperExchangeClient) (req : OrderRequest) :
    c.resolveMarketPrice req 0 = 0 := by
  unfold PaperExchangeClient.resolveMarketPrice
  cases req.side <;> exact zero_mul _

theorem deliver_price {req : OrderRequest} {placed : PlacedOrder} {streams : PriceStreams}
    {tsExchange : ℤ} {f : OrderFilled}
    (h : c.deliver parse req placed streams tsExchange = some f) :
    c.Priced parse req streams f.fillPrice ∨
      PaperExchangeClient.Unpriced parse req streams ∧ f.fillPrice = 0 := by
  unfold PaperExchangeClient.deliver at h
  unfold PaperExchangeClient.Priced PaperExchangeClient.Unpriced
  by_cases hmarket : req.orderType = "market"
  · simp only [if_pos hmarket] at h ⊢
    obtain ⟨close, hfetch, rfl⟩ := Option.map_eq_some_iff.mp h
    have hprice : (c.simulateFill req placed close tsExchange).fillPrice =
        c.resolveMarketPrice req close := if_pos hmarket
    rw [hprice]
    rcases syncFetch_eq_some hfetch with hreads | ⟨hmissing, rfl⟩
    · exact .inl ⟨close, hreads, rfl⟩
    · exact .inr ⟨hmissing, resolveMarketPrice_zero c req⟩
  · simp only [if_neg hmarket] at h ⊢
    obtain rfl := Option.some.inj h
    have hprice : (c.simulateFill req placed 0 tsExchange).fillPrice = req.limitPrice.getD 0 :=
      if_neg hmarket
    rw [hprice]
    cases req.limitPrice with
    | some p => exact .inl rfl
    | none => exact .inr ⟨rfl, rfl⟩

/-- With a slippage of less than all, the price of an order that has one is positive. -/
theorem PaperExchangeClient.Priced.pos {req : OrderRequest} {streams : PriceStreams} {price : ℚ}
    (h : c.Priced parse req streams price) (hslippage : 0 ≤ c.slippageBps)
    (hbelow : c.slippageBps < 10000) (hlimit : ∀ p ∈ req.limitPrice, 0 < p) : 0 < price := by
  unfold PaperExchangeClient.Priced at h
  split at h
  · obtain ⟨val, hreads, rfl⟩ := h
    have hfraction : mkRat 1 10000 = 1 / 10000 := by decide +kernel
    have hone : c.slippageBps * (1 / 10000) < 1 := by linarith
    have hnonneg : 0 ≤ c.slippageBps * (1 / 10000) := by positivity
    unfold PaperExchangeClient.resolveMarketPrice
    rw [hfraction]
    cases req.side with
    | buy => exact mul_pos hreads.pos (by linarith)
    | sell => exact mul_pos hreads.pos (by linarith)
  · exact hlimit price h

section Runs

variable {parse : String → Option ℚ} {c : PaperExchangeClient}

/-! ### Where a price goes -/

theorem OrderQueueWorker.move_of_fill {w : OrderQueueWorker} {f : OrderFilled} {row : OrderEvent}
    (h : row ∈ OrderQueueWorker.filledRows (w.step (.fill f)).2) : row.move = f.move := by
  by_cases hseen : f.orderId ∈ w.seenFillIds
  · rw [step_fill_seen hseen] at h
    cases h
  · cases hopen : w.openOrders.lookup f.orderId with
    | none =>
        rw [step_fill_unknown hseen hopen] at h
        cases h
    | some o =>
        obtain ⟨row', hmove, -, hrows⟩ := filledRows_fill hseen hopen
        rw [hrows, List.mem_singleton] at h
        rw [h, hmove]

theorem writtenRows_map (effects : List OrderEffect) :
    writtenRows (effects.map .worker) = OrderQueueWorker.filledRows effects := by
  rw [writtenRows, List.filterMap_map]
  exact congrArg OrderQueueWorker.filledRows List.filterMap_some

/-- A step delivers a fill of a pending order and writes its row, or writes no row at all. -/
theorem paperRunStep_cases (s : PaperRun) (e : PaperEvent) :
    (∃ req placed streams tsExchange f, c.deliver parse req placed streams tsExchange = some f ∧
      (paperRunStep parse c s e).2 =
        .delivered req streams f :: (s.worker.step (.fill f)).2.map .worker) ∨
    (∃ effects : List OrderEffect, (paperRunStep parse c s e).2 = effects.map .worker ∧
      OrderQueueWorker.filledRows effects = []) := by
  cases e with
  | fill k streams tsExchange =>
      simp only [paperRunStep]
      cases s.pending[k]? with
      | none => exact .inr ⟨[], rfl, rfl⟩
      | some o =>
          cases hdeliver : c.deliver parse o.1 o.2 streams tsExchange with
          | none =>
              refine .inr ⟨[], ?_, rfl⟩
              simp only [hdeliver]
              rfl
          | some f =>
              refine .inl ⟨o.1, o.2, streams, tsExchange, f, hdeliver, ?_⟩
              simp only [hdeliver]
  | place orderId tsExchange =>
      simp only [paperRunStep]
      cases hstage : s.worker.stage with
      | placing req =>
          exact .inr ⟨_, rfl, OrderQueueWorker.filledRows_step fun f => by simp⟩
      | _ => exact .inr ⟨[], rfl, rfl⟩
  | worker input =>
      cases input with
      | fill f => exact .inr ⟨[], rfl, rfl⟩
      | response r => exact .inr ⟨[], rfl, rfl⟩
      | _ => exact .inr ⟨_, rfl, OrderQueueWorker.filledRows_step fun f => by simp⟩

theorem delivered_priced (parse : String → Option ℚ) (c : PaperExchangeClient) :
    ∀ (es : List PaperEvent) (run : PaperRun) req streams f,
    .delivered req streams f ∈ trace (paperRunStep parse c) run es →
      c.Priced parse req streams f.fillPrice ∨
        PaperExchangeClient.Unpriced parse req streams ∧ f.fillPrice = 0
  | [], _, _, _, _, h => absurd h List.not_mem_nil
  | e :: es, run, req, streams, f, h => by
      rw [trace_cons, List.mem_append] at h
      refine h.elim (fun hstep => ?_) (delivered_priced parse c es _ req streams f)
      rcases paperRunStep_cases run e with ⟨req', placed, streams', tsExchange, f', hdeliver, heq⟩ |
        ⟨effects, heq, -⟩
      · rw [heq, List.mem_cons] at hstep
        rcases hstep with hhead | htail
        · cases hhead
          exact deliver_price hdeliver
        · obtain ⟨_, -, heffect⟩ := List.mem_map.mp htail
          cases heffect
      · rw [heq] at hstep
        obtain ⟨_, -, heffect⟩ := List.mem_map.mp hstep
        cases heffect

theorem writtenRows_append (effects effects' : List PaperEffect) :
    writtenRows (effects ++ effects') = writtenRows effects ++ writtenRows effects' := by
  rw [writtenRows, List.filterMap_append, OrderQueueWorker.filledRows_append]
  rfl

theorem writtenRows_delivered (parse : String → Option ℚ) (c : PaperExchangeClient) :
    ∀ (es : List PaperEvent) (run : PaperRun),
    ∀ row ∈ writtenRows (trace (paperRunStep parse c) run es), ∃ req streams f,
      .delivered req streams f ∈ trace (paperRunStep parse c) run es ∧ row.move = f.move
  | [], _, _, h => absurd h List.not_mem_nil
  | e :: es, run, row, h => by
      rw [trace_cons, writtenRows_append, List.mem_append] at h
      rcases h with hstep | hrest
      · rcases paperRunStep_cases run e with ⟨req, placed, streams, tsExchange, f, -, heq⟩ |
          ⟨effects, heq, hnone⟩
        · rw [heq] at hstep
          have hrow : row ∈ OrderQueueWorker.filledRows (run.worker.step (.fill f)).2 := by
            rw [← writtenRows_map]
            exact hstep
          refine ⟨req, streams, f, ?_, OrderQueueWorker.move_of_fill hrow⟩
          rw [trace_cons, heq]
          exact List.mem_append_left _ List.mem_cons_self
        · rw [heq, writtenRows_map, hnone] at hstep
          cases hstep
      · obtain ⟨req, streams, f, hf, hmove⟩ := writtenRows_delivered parse c es _ row hrest
        exact ⟨req, streams, f, List.mem_append_right _ hf, hmove⟩

/-- A fill at the price `0` books the average cost of what it closes as a loss. -/
theorem OrderQueueWorker.row_of_unpriced {w : OrderQueueWorker} {f : OrderFilled}
    {o : OrderRequest × PlacedOrder} (hseen : f.orderId ∉ w.seenFillIds)
    (hopen : w.openOrders.lookup f.orderId = some o) (hprice : f.fillPrice = 0) :
    ∃ row, OrderQueueWorker.filledRows (w.step (.fill f)).2 = [row] ∧
      (f.side = .buy → row.realizedPnl = 0) ∧
      (f.side = .sell → 0 < w.positionQty f.symbol → row.realizedPnl =
        -(min f.fillSize (w.positionQty f.symbol) * w.positionAvgPrice f.symbol)) := by
  obtain ⟨row, -, hprofit, hrows⟩ := filledRows_fill hseen hopen
  have hpnl : row.realizedPnl = (w.updatePosition f.symbol f.side f.fillSize f.fillPrice).2 :=
    congrArg Prod.snd hprofit
  refine ⟨row, hrows, fun hside => ?_, fun hside hheld => ?_⟩
  · rw [hpnl, hside]
    rfl
  · rw [hpnl, hside, hprice]
    simp only [updatePosition, if_pos hheld, zero_sub, mul_neg]

/-- **The prices of a paper run.**  Each fill has its price from a stream or from its order, or the
price `0` when there is none.  Rows are written for these fills only, so where no price is missing
every row has a positive one.  A fill without a price books the cost of what it closes as a loss. -/
theorem paper_prices (hslippage : 0 ≤ c.slippageBps) (hbelow : c.slippageBps < 10000)
    (run : PaperRun) (es : List PaperEvent) :
    let effects := trace (paperRunStep parse c) run es
    (∀ req streams f, .delivered req streams f ∈ effects →
      c.Priced parse req streams f.fillPrice ∨
        PaperExchangeClient.Unpriced parse req streams ∧ f.fillPrice = 0) ∧
    (∀ row ∈ writtenRows effects,
      ∃ req streams f, .delivered req streams f ∈ effects ∧ row.move = f.move) ∧
    ((∀ req streams f, .delivered req streams f ∈ effects →
      ¬ PaperExchangeClient.Unpriced parse req streams ∧ ∀ p ∈ req.limitPrice, 0 < p) →
      ∀ row ∈ writtenRows effects, 0 < row.avgFillPrice) ∧
    (∀ (w : OrderQueueWorker) (f : OrderFilled) (o : OrderRequest × PlacedOrder),
      f.orderId ∉ w.seenFillIds → w.openOrders.lookup f.orderId = some o → f.fillPrice = 0 →
      ∃ row, OrderQueueWorker.filledRows (w.step (.fill f)).2 = [row] ∧
        (f.side = .buy → row.realizedPnl = 0) ∧
        (f.side = .sell → 0 < w.positionQty f.symbol → row.realizedPnl =
          -(min f.fillSize (w.positionQty f.symbol) * w.positionAvgPrice f.symbol))) := by
  intro effects
  have hprices := delivered_priced parse c es run
  have hrows := writtenRows_delivered parse c es run
  refine ⟨hprices, hrows, fun hpriced row hrow => ?_, fun w f o hseen hopen hprice =>
    OrderQueueWorker.row_of_unpriced hseen hopen hprice⟩
  obtain ⟨req, streams, f, hf, hmove⟩ := hrows row hrow
  obtain ⟨hnot, hlimit⟩ := hpriced req streams f hf
  have hprice : row.avgFillPrice = f.fillPrice := congrArg PositionMove.price hmove
  rw [hprice]
  exact ((hprices req streams f hf).resolve_right fun h => hnot h.1).pos hslippage hbelow hlimit

/-! ### A sale without a price -/

/-- A market order for a tenth. -/
def marketOrder (side : OrderSide) : OrderRequest :=
  OrderQueueWorker.tenthOrder "s" .entry side

/-- An order is taken, placed under an id, and filled. -/
def orderEvents (req : OrderRequest) (orderId : String) (streams : PriceStreams) :
    List PaperEvent :=
  [.worker (.post req), .worker (.check false), .worker .take, .place orderId 0, .worker .written,
    .fill 0 streams 0, .worker (.booked 0)]

/-- A tenth is bought at a close of 100, and sold when both streams are empty. -/
def soldUnpriced : List PaperEvent :=
  orderEvents (marketOrder .buy) "1" ⟨.latest [("close", "100")], .empty⟩ ++
    orderEvents (marketOrder .sell) "2" ⟨.empty, .empty⟩

def parseHundred (s : String) : Option ℚ := if s = "100" then some (mkRat 100 1) else none

def soldEffects : List PaperEffect :=
  trace (paperRunStep parseHundred ⟨"bybit", 0⟩)
    ⟨OrderQueueWorker.halfOfThousand "s", []⟩ soldUnpriced

/-- Both fills have their price from a stream or none, and the rows of both orders are theirs. -/
theorem soldEffects_rows :
    (∀ req streams f, .delivered req streams f ∈ soldEffects →
      PaperExchangeClient.Priced parseHundred ⟨"bybit", 0⟩ req streams f.fillPrice ∨
        PaperExchangeClient.Unpriced parseHundred req streams ∧ f.fillPrice = 0) ∧
    ∀ row ∈ writtenRows soldEffects,
      ∃ req streams f, .delivered req streams f ∈ soldEffects ∧ row.move = f.move := by
  have h := @paper_prices parseHundred ⟨"bybit", 0⟩ le_rfl (by decide +kernel)
    ⟨OrderQueueWorker.halfOfThousand "s", []⟩ soldUnpriced
  exact ⟨h.1, h.2.1⟩

/-- The sale is filled at `0` and loses what was paid. -/
theorem sold_unpriced :
    (¬ ∀ (parse : String → Option ℚ) (c : PaperExchangeClient) (run : PaperRun)
      (es : List PaperEvent), 0 ≤ c.slippageBps → c.slippageBps < 10000 →
      ∀ req streams f, .delivered req streams f ∈ trace (paperRunStep parse c) run es →
        0 < f.fillPrice) ∧
      .worker (.recordPnl (-10)) ∈ soldEffects := by
  have hsale : .delivered (marketOrder .sell) ⟨.empty, .empty⟩
      ⟨"2", "bybit", "BTCUSDT", .sell, 0, 1 / 10, 0, 0⟩ ∈ soldEffects := by decide +kernel
  refine ⟨fun h => ?_, by decide +kernel⟩
  exact absurd (h parseHundred ⟨"bybit", 0⟩ _ soldUnpriced le_rfl (by decide +kernel) _ _ _ hsale)
    (lt_irrefl 0)

end Runs

end Prices

end MagnumOpus.Bot
