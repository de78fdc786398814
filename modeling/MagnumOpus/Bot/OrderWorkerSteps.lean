import MagnumOpus.Bot.OrderWorker

/-! # What each step of an order worker does

Two kinds of step change what the worker knows of its open orders: the insertion of a placed order
(`step_insert`) and a fill of an order that is open (`step_fill_known`).  All others keep the open
orders and the reserved notional (`sameBooks_step`).  While only placed orders are inserted under
new ids, the reserved notional of a symbol is that of its open orders (`Reserves`). -/

namespace MagnumOpus.Bot.OrderQueueWorker

open EventMachine KeyedSum

/-- The ids of the rows of filled orders. -/
def filledIds (effects : List OrderEffect) : List String :=
  effects.filterMap fun
    | .writeOrderEvent row => if row.status = "filled" then some row.orderId else none
    | _ => none

/-- The two workers have the same open orders, notional and limits, and have seen the same fills. -/
structure SameBooks (w w' : OrderQueueWorker) : Prop where
  openOrders : w'.openOrders = w.openOrders
  positionNotional : w'.positionNotional = w.positionNotional
  seenFillIds : w'.seenFillIds = w.seenFillIds
  portfolioValueUsd : w'.portfolioValueUsd = w.portfolioValueUsd
  maxPositionPct : w'.maxPositionPct = w.maxPositionPct

theorem SameBooks.refl (w : OrderQueueWorker) : SameBooks w w := ⟨rfl, rfl, rfl, rfl, rfl⟩

variable {w : OrderQueueWorker} {i : Input}

/-- The step that enters a placed order. -/
def Inserts (w : OrderQueueWorker) (i : Input) (req : OrderRequest) (p : PlacedOrder) : Prop :=
  i = .written ∧ w.stage = .persisting req p

theorem step_insert {req : OrderRequest} {p : PlacedOrder} (h : Inserts w i req p) :
    step w i = (w.insertOpen req p, []) := by
  obtain ⟨rfl, hs⟩ := h
  simp only [step, hs]

theorem step_fill_seen {f : OrderFilled} (h : f.orderId ∈ w.seenFillIds) :
    step w (.fill f) = (w, []) := by
  simp only [step, handleFill, if_pos h]

/-- The id of a fill is kept even when its order is not known. -/
theorem step_fill_unknown {f : OrderFilled} (h : f.orderId ∉ w.seenFillIds)
    (hopen : w.openOrders.lookup f.orderId = none) :
    step w (.fill f) = ({ w with seenFillIds := remember w.seenFillIds f.orderId }, []) := by
  simp only [step, handleFill, if_neg h, hopen]

theorem mem_of_mem_remember {ids : List String} {id id' : String} (h : id' ∈ remember ids id) :
    id' ∈ ids ∨ id' = id := by
  unfold remember at h
  rcases List.mem_append.mp h with h | h
  · left
    split at h
    · exact List.mem_of_mem_drop h
    · exact h
  · exact .inr (List.mem_singleton.mp h)

/-- What a fill of an open order leaves. -/
structure Filled (w : OrderQueueWorker) (f : OrderFilled) (req : OrderRequest)
    (w' : OrderQueueWorker) : Prop where
  openOrders : w'.openOrders = w.openOrders.erase f.orderId
  positionNotional : w'.positionNotional = Function.update w.positionNotional req.symbol
    (w.positionNotional req.symbol - w.orderNotional req)
  seenFillIds : w'.seenFillIds = remember w.seenFillIds f.orderId
  portfolioValueUsd : w'.portfolioValueUsd = w.portfolioValueUsd
  maxPositionPct : w'.maxPositionPct = w.maxPositionPct
  stage : w'.stage = w.stage

theorem updatePosition_books (v : OrderQueueWorker) (symbol : String) (side : OrderSide)
    (qty price : ℚ) :
    let v' := (v.updatePosition symbol side qty price).1
    SameBooks v v' ∧ v'.stage = v.stage := by
  cases side <;> exact ⟨⟨rfl, rfl, rfl, rfl, rfl⟩, rfl⟩

theorem step_fill_known {f : OrderFilled} {req : OrderRequest} {p : PlacedOrder}
    (h : f.orderId ∉ w.seenFillIds) (hopen : w.openOrders.lookup f.orderId = some (req, p)) :
    Filled w f req (step w (.fill f)).1 ∧ filledIds (step w (.fill f)).2 = [f.orderId] := by
  simp only [step, handleFill, if_neg h, hopen]
  obtain ⟨hsame, hstage⟩ := updatePosition_books
    (release { w with seenFillIds := remember w.seenFillIds f.orderId } f.orderId req)
    f.symbol f.side f.fillSize f.fillPrice
  refine ⟨⟨?_, ?_, ?_, ?_, ?_, ?_⟩, ?_⟩
  · exact hsame.openOrders
  · exact hsame.positionNotional
  · exact hsame.seenFillIds
  · exact hsame.portfolioValueUsd
  · exact hsame.maxPositionPct
  · exact hstage
  · simp [filledIds, fillRow]

theorem handleFill_loop (w : OrderQueueWorker) (f : OrderFilled) :
    (w.handleFill f).1.stage = w.stage ∧ (w.handleFill f).1.queue = w.queue := by
  unfold handleFill
  split
  · exact ⟨rfl, rfl⟩
  · cases w.openOrders.lookup f.orderId with
    | none => exact ⟨rfl, rfl⟩
    | some o => cases hside : f.side <;> simp [updatePosition, release]

/-- The entry order that a step lets through to the exchange. -/
def admittedEntry (w : OrderQueueWorker) (i : Input) : Option OrderRequest :=
  match i, w.stage, w.queue with
  | .take, .waiting, req :: _ =>
      if w.admits req = true ∧ req.orderRole = .entry then some req else none
  | _, _, _ => none

/-- An entry order at the head of the queue that passes the tests. -/
theorem admittedEntry_eq {req : OrderRequest} (hi : i = .take) (hs : w.stage = .waiting)
    (hq : ∃ rest, w.queue = req :: rest) (hadm : w.admits req = true)
    (hrole : req.orderRole = .entry) : admittedEntry w i = some req := by
  obtain ⟨rest, hq⟩ := hq
  subst hi
  simp only [admittedEntry, hs, hq, if_pos (And.intro hadm hrole)]

/-- A placed order is persisted only after `place_order` has returned it. -/
def ReturnsPlaced (i : Input) (p : PlacedOrder) : Prop :=
  i = .response (.returned p) ∧ p.status = .placed

/-- What any other step leaves. -/
structure Keeps (w : OrderQueueWorker) (i : Input) (w' : OrderQueueWorker)
    (effects : List OrderEffect) : Prop where
  books : SameBooks w w'
  none_filled : filledIds effects = []
  persisting : ∀ req p, w'.stage = .persisting req p →
    w.stage = .persisting req p ∨ (w.stage = .placing req ∧ ReturnsPlaced i p)
  placing : ∀ req, w'.stage = .placing req →
    w.stage = .placing req ∨
      (i = .take ∧ w.stage = .waiting ∧ (∃ rest, w.queue = req :: rest) ∧ w.admits req = true)

/-- What is left in the queue does not matter to the tests. -/
theorem process_of_queue (w : OrderQueueWorker) (queue : List OrderRequest) (req : OrderRequest) :
    ({ w with queue } : OrderQueueWorker).process req =
      if w.admits req then ({ w with queue, stage := .placing req }, [.placeOrder req])
      else ({ w with queue, stage := .top }, []) := rfl

/-- **Every step but an insertion and a fill keeps the books.** -/
theorem step_keeps (hins : ∀ req p, ¬ Inserts w i req p) (hfill : ∀ f, i ≠ .fill f) :
    Keeps w i (step w i).1 (step w i).2 := by
  have hsame : Keeps w i w [] :=
    ⟨SameBooks.refl w, rfl, fun _ _ h => .inl h, fun _ h => .inl h⟩
  cases i with
  | fill f => exact absurd rfl (hfill f)
  | post req => exact ⟨⟨rfl, rfl, rfl, rfl, rfl⟩, rfl, fun _ _ h => .inl h, fun _ h => .inl h⟩
  | cancel =>
      refine ⟨⟨rfl, rfl, rfl, rfl, rfl⟩, rfl, fun _ _ h => ?_, fun _ h => ?_⟩ <;> cases h
  | booked k =>
      simp only [step]
      cases hk : w.bookings[k]? with
      | none => exact hsame
      | some pnl =>
          refine ⟨⟨rfl, rfl, rfl, rfl, rfl⟩, ?_, fun _ _ h => .inl h, fun _ h => .inl h⟩
          cases w.tripFired <;> rfl
  | check stop =>
      simp only [step]
      split
      · refine ⟨⟨rfl, rfl, rfl, rfl, rfl⟩, rfl, fun _ _ h => ?_, fun _ h => ?_⟩ <;>
          cases stop <;> cases h
      · exact hsame
  | timeout =>
      simp only [step]
      split
      · refine ⟨⟨rfl, rfl, rfl, rfl, rfl⟩, rfl, fun _ _ h => ?_, fun _ h => ?_⟩ <;> cases h
      · exact hsame
  | take =>
      simp only [step]
      split
      · next req rest hstage hqueue =>
          rw [process_of_queue]
          by_cases hadm : w.admits req = true
          · rw [if_pos hadm]
            refine ⟨⟨rfl, rfl, rfl, rfl, rfl⟩, rfl, fun _ _ h => (by cases h), fun req' h => ?_⟩
            cases h
            exact .inr ⟨rfl, hstage, ⟨rest, hqueue⟩, hadm⟩
          · rw [if_neg hadm]
            refine ⟨⟨rfl, rfl, rfl, rfl, rfl⟩, rfl, fun _ _ h => ?_, fun _ h => ?_⟩ <;> cases h
      · exact hsame
  | response r =>
      simp only [step]
      split
      · next req hstage =>
          cases r with
          | restError =>
              refine ⟨⟨rfl, rfl, rfl, rfl, rfl⟩, ?_, fun _ _ h => (by cases h),
                fun _ h => (by cases h)⟩
              simp [placed, filledIds, orderRow]
          | raised =>
              exact ⟨⟨rfl, rfl, rfl, rfl, rfl⟩, rfl, fun _ _ h => (by cases h),
                fun _ h => (by cases h)⟩
          | returned p =>
              simp only [placed]
              cases hp : p.status with
              | rejected =>
                  refine ⟨⟨rfl, rfl, rfl, rfl, rfl⟩, ?_, fun _ _ h => (by cases h),
                    fun _ h => (by cases h)⟩
                  simp [filledIds, orderRow]
              | placed =>
                  refine ⟨⟨rfl, rfl, rfl, rfl, rfl⟩, ?_, fun req' p' h => ?_,
                    fun _ h => (by cases h)⟩
                  · simp [filledIds, orderRow]
                  · cases h
                    exact .inr ⟨hstage, rfl, hp⟩
      · exact hsame
  | written =>
      simp only [step]
      split
      · refine ⟨⟨rfl, rfl, rfl, rfl, rfl⟩, rfl, fun _ _ h => ?_, fun _ h => ?_⟩ <;> cases h
      · next req p hstage => exact absurd ⟨rfl, hstage⟩ (hins req p)
      · exact hsame

/-- A placed order stays where it is until its row has been written. -/
theorem persisting_of_step {req : OrderRequest} {p : PlacedOrder}
    (h : w.stage = .persisting req p) (hwritten : i ≠ .written) (hcancel : i ≠ .cancel) :
    (step w i).1.stage = .persisting req p := by
  cases i with
  | written => exact absurd rfl hwritten
  | cancel => exact absurd rfl hcancel
  | post req' => exact h
  | fill f => exact (handleFill_loop w f).1.trans h
  | booked k =>
      simp only [step]
      cases w.bookings[k]? <;> exact h
  | _ => simp only [step, h]

theorem limits_step (w : OrderQueueWorker) (i : Input) :
    (step w i).1.portfolioValueUsd = w.portfolioValueUsd ∧
      (step w i).1.maxPositionPct = w.maxPositionPct := by
  by_cases hins : ∃ req p, Inserts w i req p
  · obtain ⟨req, p, hins⟩ := hins
    rw [step_insert hins]
    exact ⟨rfl, rfl⟩
  · by_cases hfill : ∃ f, i = .fill f
    · obtain ⟨f, rfl⟩ := hfill
      by_cases hseen : f.orderId ∈ w.seenFillIds
      · rw [step_fill_seen hseen]
        exact ⟨rfl, rfl⟩
      · cases hopen : w.openOrders.lookup f.orderId with
        | none =>
            rw [step_fill_unknown hseen hopen]
            exact ⟨rfl, rfl⟩
        | some o =>
            have hv := (step_fill_known hseen hopen).1
            exact ⟨hv.portfolioValueUsd, hv.maxPositionPct⟩
    · have hkeeps := step_keeps (fun req p h => hins ⟨req, p, h⟩) fun f hf => hfill ⟨f, hf⟩
      exact ⟨hkeeps.books.portfolioValueUsd, hkeeps.books.maxPositionPct⟩

theorem limits_run (is : List Input) (w : OrderQueueWorker) :
    (final step w is).portfolioValueUsd = w.portfolioValueUsd ∧
      (final step w is).maxPositionPct = w.maxPositionPct := by
  refine final_invariant (I := fun v : OrderQueueWorker =>
    v.portfolioValueUsd = w.portfolioValueUsd ∧ v.maxPositionPct = w.maxPositionPct)
    (fun v i hv => ?_) is ⟨rfl, rfl⟩
  obtain ⟨hvalue, hpct⟩ := limits_step v i
  exact ⟨hvalue.trans hv.1, hpct.trans hv.2⟩

/-- Only an order that is taken from the queue and passes the tests reaches the exchange. -/
theorem placeOrder_of_step {req : OrderRequest} (h : .placeOrder req ∈ (step w i).2) :
    i = .take ∧ w.stage = .waiting ∧ (∃ rest, w.queue = req :: rest) ∧ w.admits req = true := by
  cases i with
  | take =>
      simp only [step] at h
      split at h
      · next req' rest hstage hqueue =>
          rw [process_of_queue] at h
          by_cases hadm : w.admits req' = true
          · rw [if_pos hadm] at h
            obtain rfl := OrderEffect.placeOrder.inj (List.mem_singleton.mp h)
            exact ⟨rfl, hstage, ⟨rest, hqueue⟩, hadm⟩
          · rw [if_neg hadm] at h
            cases h
      · cases h
  | fill f =>
      exfalso
      simp only [step, handleFill] at h
      split at h
      · cases h
      · split at h
        · cases h
        · cases List.mem_singleton.mp h
  | booked k =>
      exfalso
      simp only [step] at h
      split at h
      · cases h
      · split at h
        · cases h
        · cases List.mem_singleton.mp h
  | response r =>
      exfalso
      simp only [step] at h
      split at h
      · cases r with
        | returned p =>
            simp only [placed] at h
            split at h <;> cases List.mem_singleton.mp h
        | restError => cases List.mem_singleton.mp h
        | raised => cases h
      · cases h
  | _ =>
      exfalso
      simp only [step] at h
      first
        | cases h
        | split at h <;> cases h

theorem step_of_admittedEntry {req : OrderRequest} (h : admittedEntry w i = some req) :
    i = .take ∧ w.stage = .waiting ∧ req.orderRole = .entry ∧ ∃ rest,
      step w i = ({ w with queue := rest, stage := .placing req }, [.placeOrder req]) := by
  unfold admittedEntry at h
  split at h
  · next req' rest hstage hqueue =>
      split at h
      · next hadm =>
          obtain rfl := Option.some.inj h
          have hstep :
              step w .take = ({ w with queue := rest } : OrderQueueWorker).process req' := by
            unfold step
            simp only [hstage, hqueue]
          refine ⟨rfl, hstage, hadm.2, rest, ?_⟩
          rw [hstep, process_of_queue, if_pos hadm.1]
      · cases h
  · cases h

theorem placeOrder_of_admittedEntry {req : OrderRequest} (h : admittedEntry w i = some req) :
    .placeOrder req ∈ (step w i).2 ∧ req.orderRole = .entry := by
  obtain ⟨-, -, hrole, rest, hstep⟩ := step_of_admittedEntry h
  rw [hstep]
  exact ⟨List.mem_singleton_self _, hrole⟩

/-! ### The reserved notional -/

/-- The notional that an open order reserves for a symbol. -/
def reserved (w : OrderQueueWorker) (symbol : String) (o : OrderRequest × PlacedOrder) : ℚ≥0 :=
  if o.1.symbol = symbol then w.orderNotional o.1 else 0

/-- The notional of each symbol is that of its open orders. -/
def Reserves (w : OrderQueueWorker) : Prop :=
  ∀ symbol, w.positionNotional symbol = total (w.reserved symbol) w.openOrders

theorem orderNotional_congr {v : OrderQueueWorker} (h : v.portfolioValueUsd = w.portfolioValueUsd) :
    v.orderNotional = w.orderNotional := by
  funext req
  rw [orderNotional, orderNotional, h]

theorem reserved_congr {v : OrderQueueWorker} (h : v.portfolioValueUsd = w.portfolioValueUsd) :
    v.reserved = w.reserved := by
  funext symbol o
  rw [reserved, reserved, orderNotional_congr h]

theorem Reserves.sameBooks {v : OrderQueueWorker} (h : w.Reserves) (hb : SameBooks w v) :
    v.Reserves := by
  intro symbol
  rw [hb.positionNotional, hb.openOrders, reserved_congr hb.portfolioValueUsd]
  exact h symbol

theorem Reserves.insertOpen (h : w.Reserves) (req : OrderRequest) {p : PlacedOrder}
    (hnew : p.orderId ∉ w.openOrders) : (w.insertOpen req p).Reserves := by
  intro symbol
  have htotal : total (w.reserved symbol) (w.openOrders.insert p.orderId (req, p)) =
      w.reserved symbol (req, p) + total (w.reserved symbol) w.openOrders :=
    total_insert _ _ hnew
  show Function.update w.positionNotional req.symbol _ symbol =
    total (w.reserved symbol) (w.openOrders.insert p.orderId (req, p))
  rw [htotal]
  by_cases hs : symbol = req.symbol
  · subst hs
    rw [Function.update_self, reserved, if_pos rfl, h, add_comm]
  · rw [Function.update_of_ne hs, reserved, if_neg (Ne.symm hs), zero_add, h]

theorem Reserves.filled (h : w.Reserves) {v : OrderQueueWorker} {f : OrderFilled}
    {req : OrderRequest} {p : PlacedOrder} (hv : Filled w f req v)
    (hopen : w.openOrders.lookup f.orderId = some (req, p)) : v.Reserves := by
  intro symbol
  have htotal : w.reserved symbol (req, p) + total (w.reserved symbol) v.openOrders =
      total (w.reserved symbol) w.openOrders := by
    rw [hv.openOrders]
    exact total_erase _ hopen
  rw [reserved_congr hv.portfolioValueUsd, hv.positionNotional]
  by_cases hs : symbol = req.symbol
  · subst hs
    rw [Function.update_self, h req.symbol, ← htotal, reserved, if_pos rfl, add_tsub_cancel_left]
  · rw [Function.update_of_ne hs, h symbol, ← htotal, reserved, if_neg (Ne.symm hs), zero_add]

/-! ### A worker and its orders -/

/-- A worker that may have half of a portfolio of 1000 in a position. -/
def halfOfThousand (strategyName : String) : OrderQueueWorker := new strategyName (1 / 2) 1000 0

/-- An order for a tenth of the portfolio. -/
def tenthOrder (strategy : String) (role : OrderRole) (side : OrderSide) : OrderRequest where
  strategy := strategy
  exchange := "bybit"
  symbol := "BTCUSDT"
  side := side
  orderType := "market"
  orderRole := role
  size := 1 / 10

end MagnumOpus.Bot.OrderQueueWorker
