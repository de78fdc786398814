import MagnumOpus.Bot.Positions
import MagnumOpus.Bot.Reconciliation

/-! # Recovery from a crash

A worker stops at some point of a run, while fills go on at the exchange.  A new worker is built by
`startupReconciliation` from the rows that the old one has written and from the orders that are
still open.  `Recovered` compares it with the worker that the old one would have become.

* **What is recovered.** Symbol, side and size of the orders that are still open, and with them
  their reserved notional (`Logged`, `lookup_restarted`).
* **What is lost.** Their roles, which no row has, and all positions: nothing calls
  `restore_position`.  So a worker is recovered exactly when it has neither (`NothingLost`). -/

namespace MagnumOpus.Bot.OrderQueueWorker

open EventMachine KeyedSum LatestBy

variable {w : OrderQueueWorker} {i : Input}

/-- The rows that have been written. -/
def rowsOf (effects : List OrderEffect) : List OrderEvent :=
  effects.filterMap fun
    | .writeOrderEvent row => some row
    | _ => none

@[simp] theorem rowsOf_nil : rowsOf [] = [] := rfl

theorem rowsOf_append (effects effects' : List OrderEffect) :
    rowsOf (effects ++ effects') = rowsOf effects ++ rowsOf effects' := List.filterMap_append

/-- A worker with an order whose row has been written would enter that order next. -/
def settled (w : OrderQueueWorker) : OrderQueueWorker :=
  match w.stage with
  | .persisting req p => w.insertOpen req p
  | _ => w

/-- The row of an open order, when it is one of the strategy's. -/
def openRow (strategyName : String) (o : OrderRequest × PlacedOrder) : Option OrderEvent :=
  if o.1.strategy = strategyName then
    some (orderRow o.1 o.2.orderId o.2.clientOrderId "placed" (o.2.tsExchange * 1000))
  else none

/-- The exchange gives every order an id of its own, and the worker's task is not cancelled. -/
def Orderly (w : OrderQueueWorker) : Input → Prop
  | .response (.returned p) => p.orderId ≠ "" ∧ p.orderId ∉ w.openOrders
  | .cancel => False
  | _ => True

/-! ### What the table tells -/

/-- The rows of the orders that are not done are those of the open orders. -/
structure Logged (strategyName : String) (w : OrderQueueWorker) (table : List OrderEvent) :
    Prop where
  rows : ∀ id, live table strategyName id =
    (w.settled.openOrders.lookup id).bind (openRow strategyName)
  ids : ∀ id o, w.settled.openOrders.lookup id = some o → o.2.orderId = id ∧ id ≠ ""
  new : ∀ req p, w.stage = .persisting req p → p.orderId ∉ w.openOrders
  reserves : w.Reserves

/-- Nothing but the answer to an order and a fill writes a row. -/
theorem rowsOf_step (hresponse : ∀ req r, w.stage = .placing req → i ≠ .response r)
    (hfill : ∀ f, i ≠ .fill f) : rowsOf (step w i).2 = [] := by
  cases i with
  | response r =>
      simp only [step]
      split
      · next req hstage => exact absurd rfl (hresponse req r hstage)
      · rfl
  | fill f => exact absurd rfl (hfill f)
  | take =>
      simp only [step]
      split
      · rw [process_of_queue]
        split <;> rfl
      · rfl
  | booked k =>
      simp only [step]
      cases w.bookings[k]? with
      | none => rfl
      | some pnl => cases w.tripFired <;> rfl
  | _ =>
      simp only [step]
      first
        | rfl
        | split <;> rfl

theorem settled_of_not_persisting (h : ∀ req p, w.stage ≠ .persisting req p) : w.settled = w := by
  unfold settled
  split
  · next req p hstage => exact absurd hstage (h req p)
  · rfl

theorem settled_of_persisting {req : OrderRequest} {p : PlacedOrder}
    (h : w.stage = .persisting req p) : w.settled = w.insertOpen req p := by
  simp only [settled, h]

theorem live_done {strategyName : String} {table : List OrderEvent} {row : OrderEvent}
    {openOrders openOrders' : Entries String (OrderRequest × PlacedOrder)}
    (hrows : ∀ id, live table strategyName id =
      (openOrders.lookup id).bind (openRow strategyName))
    (hdone : row.status ∈ terminalStatuses)
    (hstrategy : ∀ o, openOrders.lookup row.orderId = some o → o.1.strategy = row.strategy)
    (hlookup : ∀ id, openOrders'.lookup id =
      if id = row.orderId then none else openOrders.lookup id) (id : String) :
    live (table ++ [row]) strategyName id =
      (openOrders'.lookup id).bind (openRow strategyName) := by
  rw [live_append_singleton, hlookup, if_pos hdone]
  by_cases hid : id = row.orderId
  · subst hid
    rw [if_pos rfl, Option.bind_none]
    by_cases hname : row.strategy = strategyName
    · rw [if_pos ⟨hname, rfl⟩]
    · rw [if_neg fun h => hname h.1, hrows]
      cases hopen : openOrders.lookup row.orderId with
      | none => rfl
      | some o => rw [Option.bind_some, openRow, if_neg (hstrategy o hopen ▸ hname)]
  · rw [if_neg fun h => hid h.2.symm, if_neg hid, hrows]

theorem live_placed {strategyName : String} {table : List OrderEvent}
    {openOrders : Entries String (OrderRequest × PlacedOrder)}
    (hrows : ∀ id, live table strategyName id =
      (openOrders.lookup id).bind (openRow strategyName))
    (req : OrderRequest) {p : PlacedOrder} (hnew : p.orderId ∉ openOrders) (id : String) :
    live (table ++ [orderRow req p.orderId p.clientOrderId "placed" (p.tsExchange * 1000)])
        strategyName id =
      ((openOrders.insert p.orderId (req, p)).lookup id).bind (openRow strategyName) := by
  rw [live_append_singleton]
  by_cases hid : p.orderId = id
  · subst hid
    rw [AList.lookup_insert, Option.bind_some, openRow, hrows, AList.lookup_eq_none.mpr hnew]
    by_cases hname : req.strategy = strategyName
    · simp [orderRow, hname, terminalStatuses]
    · simp [orderRow, hname]
  · rw [if_neg fun h => hid h.2, AList.lookup_insert_ne (Ne.symm hid), hrows]

/-! ### Steps -/

section Steps

variable {strategyName : String} {table : List OrderEvent} {v : OrderQueueWorker}

theorem settled_openOrders_congr
    (hstage : ∀ req p, v.stage = .persisting req p ↔ w.stage = .persisting req p)
    (hopen : v.openOrders = w.openOrders) : v.settled.openOrders = w.settled.openOrders := by
  by_cases hpersisting : ∃ req p, w.stage = .persisting req p
  · obtain ⟨req, p, hw⟩ := hpersisting
    rw [settled_of_persisting hw, settled_of_persisting ((hstage req p).mpr hw)]
    exact congrArg (AList.insert p.orderId (req, p)) hopen
  · rw [settled_of_not_persisting fun req p hw => hpersisting ⟨req, p, hw⟩,
      settled_of_not_persisting fun req p hv => hpersisting ⟨req, p, (hstage req p).mp hv⟩, hopen]

theorem Logged.of_same (h : Logged strategyName w table)
    (hopen : v.settled.openOrders = w.settled.openOrders)
    (hnew : ∀ req p, v.stage = .persisting req p → p.orderId ∉ v.openOrders)
    (hreserves : v.Reserves) : Logged strategyName v table := by
  refine ⟨fun id => ?_, fun id o => ?_, hnew, hreserves⟩
  · rw [hopen]
    exact h.rows id
  · rw [hopen]
    exact h.ids id o

theorem Logged.of_done (h : Logged strategyName w table) {row : OrderEvent}
    (hdone : row.status ∈ terminalStatuses)
    (hstrategy : ∀ o, w.settled.openOrders.lookup row.orderId = some o →
      o.1.strategy = row.strategy)
    (hlookup : ∀ id, v.settled.openOrders.lookup id =
      if id = row.orderId then none else w.settled.openOrders.lookup id)
    (hnew : ∀ req p, v.stage = .persisting req p → p.orderId ∉ v.openOrders)
    (hreserves : v.Reserves) : Logged strategyName v (table ++ [row]) := by
  refine ⟨live_done h.rows hdone hstrategy hlookup, fun id o ho => ?_, hnew, hreserves⟩
  rw [hlookup] at ho
  split at ho
  · cases ho
  · exact h.ids id o ho

theorem logged_insert (h : Logged strategyName w table) {req : OrderRequest} {p : PlacedOrder}
    (hins : Inserts w i req p) :
    Logged strategyName (step w i).1 (table ++ rowsOf (step w i).2) := by
  have hsettled : (w.insertOpen req p).settled = w.settled := (settled_of_persisting hins.2).symm
  rw [step_insert hins, rowsOf_nil, List.append_nil]
  exact h.of_same (congrArg openOrders hsettled) (fun req' p' hstage => by cases hstage)
    (h.reserves.insertOpen req (h.new req p hins.2))

/-- Before an order is entered, only the entered ones can be filled. -/
theorem Logged.lookup_settled (h : Logged strategyName w table) {id : String}
    (hid : id ∈ w.openOrders) : w.settled.openOrders.lookup id = w.openOrders.lookup id := by
  by_cases hpersisting : ∃ req p, w.stage = .persisting req p
  · obtain ⟨req, p, hstage⟩ := hpersisting
    have hne : id ≠ p.orderId := by
      rintro rfl
      exact h.new req p hstage hid
    rw [settled_of_persisting hstage]
    exact AList.lookup_insert_ne hne
  · rw [settled_of_not_persisting fun req p hstage => hpersisting ⟨req, p, hstage⟩]

theorem Logged.lookup_filled (h : Logged strategyName w table) {f : OrderFilled}
    {req : OrderRequest} (hv : Filled w f req v) (hid : f.orderId ∈ w.openOrders) (id : String) :
    v.settled.openOrders.lookup id =
      if id = f.orderId then none else w.settled.openOrders.lookup id := by
  have herase : ∀ id, (w.openOrders.erase f.orderId).lookup id =
      if id = f.orderId then none else w.openOrders.lookup id := by
    intro id
    split
    · next heq => rw [heq, AList.lookup_erase]
    · next hne => exact AList.lookup_erase_ne hne
  by_cases hpersisting : ∃ req p, w.stage = .persisting req p
  · obtain ⟨req', p, hstage⟩ := hpersisting
    have hne : p.orderId ≠ f.orderId := by
      intro heq
      exact h.new req' p hstage (heq ▸ hid)
    rw [settled_of_persisting hstage, settled_of_persisting (hv.stage.trans hstage)]
    show (v.openOrders.insert p.orderId (req', p)).lookup id =
      if id = f.orderId then none else (w.openOrders.insert p.orderId (req', p)).lookup id
    rw [hv.openOrders]
    by_cases hp : id = p.orderId
    · subst hp
      rw [AList.lookup_insert, AList.lookup_insert, if_neg hne]
    · rw [AList.lookup_insert_ne hp, AList.lookup_insert_ne hp, herase]
  · have hstage : ∀ req p, w.stage ≠ .persisting req p :=
      fun req p hstage => hpersisting ⟨req, p, hstage⟩
    rw [settled_of_not_persisting hstage, settled_of_not_persisting (hv.stage ▸ hstage),
      hv.openOrders, herase]

theorem rowsOf_fill {f : OrderFilled} {req : OrderRequest} {p : PlacedOrder}
    (hseen : f.orderId ∉ w.seenFillIds) (hopen : w.openOrders.lookup f.orderId = some (req, p)) :
    ∃ row, rowsOf (step w (.fill f)).2 = [row] ∧ row.orderId = f.orderId ∧
      row.strategy = req.strategy ∧ row.status = "filled" := by
  simp only [step, handleFill, if_neg hseen, hopen]
  exact ⟨_, rfl, rfl, rfl, rfl⟩

theorem logged_fill (h : Logged strategyName w table) (f : OrderFilled) :
    Logged strategyName (step w (.fill f)).1 (table ++ rowsOf (step w (.fill f)).2) := by
  by_cases hseen : f.orderId ∈ w.seenFillIds
  · rw [step_fill_seen hseen, rowsOf_nil, List.append_nil]
    exact h
  · cases hopen : w.openOrders.lookup f.orderId with
    | none =>
        rw [step_fill_unknown hseen hopen, rowsOf_nil, List.append_nil]
        exact h.of_same (settled_openOrders_congr (fun _ _ => Iff.rfl) rfl) h.new h.reserves
    | some o =>
        obtain ⟨req, p⟩ := o
        obtain ⟨hv, -⟩ := step_fill_known hseen hopen
        obtain ⟨row, hrow, hid, hstrategy, hstatus⟩ := rowsOf_fill hseen hopen
        have hmem : f.orderId ∈ w.openOrders := AList.lookup_isSome.mp (by rw [hopen]; rfl)
        have hlookup := h.lookup_filled hv hmem
        rw [hrow]
        rw [← hid] at hlookup hopen hmem
        refine h.of_done (by rw [hstatus]; decide) ?_ hlookup ?_
          (h.reserves.filled hv (hid ▸ hopen))
        · intro o ho
          rw [h.lookup_settled hmem, hopen] at ho
          cases ho
          exact hstrategy.symm
        · intro req' p' hstage hin
          rw [hv.openOrders] at hin
          exact h.new req' p' (hv.stage ▸ hstage) (AList.mem_erase.mp hin).2

theorem logged_done (h : Logged strategyName w table) (hsettled : w.settled = w) {row : OrderEvent}
    {stage : Stage} (hstatus : row.status ∈ terminalStatuses) (hid : row.orderId ∉ w.openOrders)
    (hnot : ∀ req p, stage ≠ .persisting req p) :
    Logged strategyName { w with stage } (table ++ [row]) := by
  have hnone : w.openOrders.lookup row.orderId = none := AList.lookup_eq_none.mpr hid
  refine h.of_done hstatus (fun o ho => ?_) (fun id => ?_)
    (fun req' p' h' => absurd h' (hnot req' p')) h.reserves
  · rw [hsettled, hnone] at ho
    cases ho
  · rw [hsettled, settled_of_not_persisting hnot]
    split
    · next heq => rw [heq]; exact hnone
    · rfl

/-- A placed order is in the table before it is entered. -/
theorem logged_placed (h : Logged strategyName w table) (hsettled : w.settled = w)
    (req : OrderRequest) {p : PlacedOrder} (hne : p.orderId ≠ "")
    (hnew : p.orderId ∉ w.openOrders) :
    Logged strategyName { w with stage := .persisting req p }
      (table ++ [orderRow req p.orderId p.clientOrderId "placed" (p.tsExchange * 1000)]) := by
  have hnext : ({ w with stage := .persisting req p } : OrderQueueWorker).settled.openOrders
      = w.openOrders.insert p.orderId (req, p) := rfl
  have hrows := h.rows
  have hids := h.ids
  rw [hsettled] at hrows hids
  refine ⟨fun id => ?_, fun id o ho => ?_, fun req' p' h' => ?_, h.reserves⟩
  · rw [hnext]
    exact live_placed hrows req hnew id
  · rw [hnext] at ho
    by_cases hid : id = p.orderId
    · subst hid
      rw [AList.lookup_insert] at ho
      cases ho
      exact ⟨rfl, hne⟩
    · rw [AList.lookup_insert_ne hid] at ho
      exact hids id o ho
  · cases h'
    exact hnew

theorem logged_response (h : Logged strategyName w table) {r : Response} {req : OrderRequest}
    (hstage : w.stage = .placing req) (horderly : Orderly w (.response r)) :
    Logged strategyName (step w (.response r)).1 (table ++ rowsOf (step w (.response r)).2) := by
  have hsettled : w.settled = w :=
    settled_of_not_persisting fun req' p' h' => by rw [hstage] at h'; cases h'
  simp only [step, hstage]
  cases r with
  | restError =>
      refine logged_done h hsettled (show "failed" ∈ terminalStatuses by decide) (fun hid => ?_)
        (by simp)
      obtain ⟨o, ho⟩ := Option.isSome_iff_exists.mp (AList.lookup_isSome.mpr hid)
      have hids := h.ids "" o
      rw [hsettled] at hids
      exact (hids ho).2 rfl
  | raised =>
      have hended : ({ w with stage := .ended } : OrderQueueWorker).settled.openOrders =
          w.settled.openOrders := by
        rw [hsettled]
        rfl
      rw [show rowsOf (w.placed req .raised).2 = [] from rfl, List.append_nil]
      exact h.of_same hended (fun req' p' h' => by cases h') h.reserves
  | returned p =>
      obtain ⟨hne, hnew⟩ := horderly
      simp only [placed]
      cases p.status with
      | rejected =>
          exact logged_done h hsettled (show "rejected" ∈ terminalStatuses by decide) hnew (by simp)
      | placed => exact logged_placed h hsettled req hne hnew

/-- **One step** keeps the table in line with the open orders. -/
theorem logged_step (h : Logged strategyName w table) (horderly : Orderly w i) :
    Logged strategyName (step w i).1 (table ++ rowsOf (step w i).2) := by
  by_cases hins : ∃ req p, Inserts w i req p
  · obtain ⟨req, p, hins⟩ := hins
    exact logged_insert h hins
  · have hins' : ∀ req p, ¬ Inserts w i req p := fun req p hx => hins ⟨req, p, hx⟩
    by_cases hfill : ∃ f, i = .fill f
    · obtain ⟨f, rfl⟩ := hfill
      exact logged_fill h f
    · have hfill' : ∀ f, i ≠ .fill f := fun f hf => hfill ⟨f, hf⟩
      have hkeeps := step_keeps hins' hfill'
      by_cases hresponse : ∃ req r, w.stage = .placing req ∧ i = .response r
      · obtain ⟨req, r, hstage, rfl⟩ := hresponse
        exact logged_response h hstage horderly
      · -- Nothing is written, and a placed order stays where it is.
        have hstage : ∀ req p, (step w i).1.stage = .persisting req p ↔
            w.stage = .persisting req p := by
          intro req p
          constructor
          · intro hnext
            rcases hkeeps.persisting req p hnext with hw | ⟨hw, hreturns, -⟩
            · exact hw
            · exact absurd ⟨req, _, hw, hreturns⟩ hresponse
          · intro hw
            have hcancel : i ≠ .cancel := by
              rintro rfl
              exact horderly
            exact persisting_of_step hw (fun hx => hins' req p ⟨hx, hw⟩) hcancel
        have hrows : rowsOf (step w i).2 = [] :=
          rowsOf_step (fun req r hw hi => hresponse ⟨req, r, hw, hi⟩) hfill'
        rw [hrows, List.append_nil]
        refine h.of_same (settled_openOrders_congr hstage hkeeps.books.openOrders)
          (fun req p hv => ?_) (h.reserves.sameBooks hkeeps.books)
        rw [hkeeps.books.openOrders]
        exact h.new req p ((hstage req p).mp hv)

end Steps

/-! ### Runs -/

theorem logged_new (strategyName : String) (pct portfolio : ℚ≥0) (limit : ℚ) :
    Logged strategyName (new strategyName pct portfolio limit) [] := by
  refine ⟨fun id => rfl, fun id o ho => (by cases ho), fun req p hstage => (by cases hstage),
    fun symbol => rfl⟩

theorem logged_run {strategyName : String} (is : List Input) :
    ∀ {w : OrderQueueWorker} {table : List OrderEvent}, Logged strategyName w table →
      Along step Orderly w is →
      Logged strategyName (final step w is) (table ++ rowsOf (trace step w is)) := by
  induction is with
  | nil =>
      intro w table h _
      rw [trace_nil, rowsOf_nil, List.append_nil]
      exact h
  | cons i is ih =>
      intro w table h horderly
      rw [trace_cons, rowsOf_append, ← List.append_assoc]
      exact ih (logged_step h horderly.1) horderly.2

/-- What the old worker would have become: its order is entered, and the fills are handled. -/
def survivor (w : OrderQueueWorker) (fills : List OrderFilled) : OrderQueueWorker :=
  final step w.settled (fills.map .fill)

/-- The new worker, after a reconciliation in which both queries were answered. -/
def restarted (strategyName : String) (pct portfolio : ℚ≥0) (limit : ℚ) (table : List OrderEvent)
    (exchangeIds : List String) : OrderQueueWorker :=
  (new strategyName pct portfolio limit).startupReconciliation false
    (some (queryNonterminalOrders table strategyName)) (some exchangeIds)

theorem limits_settled (w : OrderQueueWorker) :
    w.settled.portfolioValueUsd = w.portfolioValueUsd ∧
      w.settled.maxPositionPct = w.maxPositionPct := by
  unfold settled
  split <;> exact ⟨rfl, rfl⟩

theorem Logged.settled_reserves {strategyName : String} {table : List OrderEvent}
    (h : Logged strategyName w table) : w.settled.Reserves := by
  unfold settled
  split
  · next req p hstage => exact h.reserves.insertOpen req (h.new req p hstage)
  · exact h.reserves

/-- What fills leave. -/
structure AfterFills (w : OrderQueueWorker) (ids : List String) (v : OrderQueueWorker) : Prop where
  lookup : ∀ id, id ∉ ids → v.openOrders.lookup id = w.openOrders.lookup id
  reserves : w.Reserves → v.Reserves

theorem afterFills_step (w : OrderQueueWorker) (f : OrderFilled) :
    AfterFills w [f.orderId] (step w (.fill f)).1 := by
  by_cases hseen : f.orderId ∈ w.seenFillIds
  · rw [step_fill_seen hseen]
    exact ⟨fun _ _ => rfl, fun h => h⟩
  · cases hopen : w.openOrders.lookup f.orderId with
    | none =>
        rw [step_fill_unknown hseen hopen]
        exact ⟨fun _ _ => rfl, fun h => h⟩
    | some o =>
        have hv := (step_fill_known hseen hopen).1
        refine ⟨fun id hid => ?_, fun h => h.filled hv hopen⟩
        rw [hv.openOrders]
        exact AList.lookup_erase_ne fun heq => hid (heq ▸ List.mem_singleton_self _)

theorem afterFills_run (fills : List OrderFilled) : ∀ w : OrderQueueWorker,
    AfterFills w (fills.map OrderFilled.orderId) (final step w (fills.map .fill)) := by
  induction fills with
  | nil => exact fun w => ⟨fun _ _ => rfl, fun h => h⟩
  | cons f fills ih =>
      intro w
      have hstep := afterFills_step w f
      have hrun := ih (step w (.fill f)).1
      refine ⟨fun id hid => ?_, fun h => hrun.reserves (hstep.reserves h)⟩
      have hne : id ≠ f.orderId := List.ne_of_not_mem_cons hid
      exact (hrun.lookup id (List.not_mem_of_not_mem_cons hid)).trans
        (hstep.lookup id fun hmem => hne (List.mem_singleton.mp hmem))

/-! ### The new worker -/

/-- A worker that is rebuilt from the rows of another one. -/
structure Rebuilt (strategyName : String) (exchangeIds : List String) (w v : OrderQueueWorker) :
    Prop where
  lookup : ∀ id, v.openOrders.lookup id =
    if id ∈ exchangeIds then
      ((w.openOrders.lookup id).bind (openRow strategyName)).map (buildFromRow strategyName)
    else none
  old_reserves : w.Reserves
  new_reserves : v.Reserves
  positionQty : v.positionQty = fun _ => 0
  positionAvgPrice : v.positionAvgPrice = fun _ => 0
  portfolioValueUsd : v.portfolioValueUsd = w.portfolioValueUsd
  maxPositionPct : v.maxPositionPct = w.maxPositionPct

theorem find?_restored (table : List OrderEvent) (strategyName : String)
    (exchangeIds : List String) (id : String) :
    ((queryNonterminalOrders table strategyName).filter (·.orderId ∈ exchangeIds)).find?
        (·.orderId = id) =
      if id ∈ exchangeIds then live table strategyName id else none := by
  have hnodup : (((queryNonterminalOrders table strategyName).filter
      (·.orderId ∈ exchangeIds)).map OrderEvent.orderId).Nodup :=
    (nodup_query table strategyName).sublist (List.filter_sublist.map _)
  refine Option.ext fun row => ?_
  rw [find?_eq_some_iff_of_nodup hnodup, List.mem_filter, mem_query_iff, decide_eq_true_iff]
  constructor
  · rintro ⟨⟨hlive, hmem⟩, rfl⟩
    rw [if_pos hmem]
    exact hlive
  · intro h
    split at h
    · next hmem =>
        have hid : row.orderId = id := key_of_latest (Option.filter_eq_some_iff.mp h).1
        subst hid
        exact ⟨⟨h, hmem⟩, rfl⟩
    · cases h

/-- Reconciliation rebuilds the worker that the old one would have become. -/
theorem rebuilt {strategyName : String} {pct portfolio : ℚ≥0} {limit : ℚ} {is : List Input}
    {fills : List OrderFilled} {exchangeIds : List String}
    (horderly : Along step Orderly (new strategyName pct portfolio limit) is)
    (htrue : ∀ f ∈ fills, f.orderId ∉ exchangeIds) :
    let old := final step (new strategyName pct portfolio limit) is
    let table := rowsOf (trace step (new strategyName pct portfolio limit) is)
    Rebuilt strategyName exchangeIds (survivor old fills)
      (restarted strategyName pct portfolio limit table exchangeIds) := by
  intro old table
  have hlogged : Logged strategyName old table :=
    logged_run is (logged_new strategyName pct portfolio limit) horderly
  have hfills := afterFills_run fills old.settled
  have hlimits : (survivor old fills).portfolioValueUsd = portfolio ∧
      (survivor old fills).maxPositionPct = pct := by
    obtain ⟨hvalue, hpct⟩ := limits_run is (new strategyName pct portfolio limit)
    obtain ⟨hvalue', hpct'⟩ := limits_run (fills.map .fill) old.settled
    obtain ⟨hvalue'', hpct''⟩ := limits_settled old
    exact ⟨hvalue'.trans (hvalue''.trans hvalue), hpct'.trans (hpct''.trans hpct)⟩
  have hnodup : (((queryNonterminalOrders table strategyName).filter
      (·.orderId ∈ exchangeIds)).map OrderEvent.orderId).Nodup :=
    (nodup_query table strategyName).sublist (List.filter_sublist.map _)
  obtain ⟨hreserves, hqty, hprice, hvalue, hpct, hlookup⟩ := restoreRows _
    (new strategyName pct portfolio limit) hnodup (fun row _ => AList.notMem_empty _)
    (logged_new strategyName pct portfolio limit).reserves
  refine ⟨fun id => ?_, hfills.reserves (hlogged.settled_reserves), hreserves, hqty, hprice,
    hvalue.trans hlimits.1.symm, hpct.trans hlimits.2.symm⟩
  have hempty : (new strategyName pct portfolio limit).openOrders.lookup id = none := rfl
  refine (hlookup id).trans ?_
  rw [find?_restored, hempty, Option.or_none]
  split
  · next hmem =>
      have hid : id ∉ fills.map OrderFilled.orderId := by
        intro hf
        obtain ⟨f, hmem', rfl⟩ := List.mem_map.mp hf
        exact htrue f hmem' hmem
      rw [hlogged.rows, survivor, hfills.lookup id hid]
      rfl
  · rfl

/-! ### What is recovered -/

/-- What has to stay the same of an open order. -/
def terms (o : OrderRequest × PlacedOrder) : String × OrderSide × ℚ≥0 × OrderRole :=
  (o.1.symbol, o.1.side, o.1.size, o.1.orderRole)

/-- The new worker `v` decides as the old one `w` would. -/
structure Recovered (exchangeIds : List String) (w v : OrderQueueWorker) : Prop where
  openOrders : ∀ id ∈ exchangeIds,
    (v.openOrders.lookup id).map terms = (w.openOrders.lookup id).map terms
  positionNotional : v.positionNotional = w.positionNotional
  positionQty : v.positionQty = w.positionQty
  positionAvgPrice : v.positionAvgPrice = w.positionAvgPrice
  dedup : ∀ req, v.isEntryDedup req = w.isEntryDedup req
  riskGate : ∀ req, v.exceedsRiskGate req = w.exceedsRiskGate req

/-- The worker has nothing that reconciliation does not bring back. -/
structure NothingLost (strategyName : String) (exchangeIds : List String) (w : OrderQueueWorker) :
    Prop where
  /-- The orders that are still open have no role. -/
  roles : ∀ id ∈ exchangeIds, ∀ o, w.openOrders.lookup id = some o →
    o.1.strategy = strategyName ∧ o.1.orderRole = .other ""
  entries : ∀ id o, w.openOrders.lookup id = some o → o.1.orderRole ≠ .entry
  unreserved : ∀ id, id ∉ exchangeIds → ∀ o, w.openOrders.lookup id = some o →
    w.orderNotional o.1 = 0
  flat : ∀ symbol, w.positionQty symbol = 0 ∧ w.positionAvgPrice symbol = 0

theorem isEntryDedup_iff (w : OrderQueueWorker) (req : OrderRequest) :
    w.isEntryDedup req = true ↔ req.orderRole = .entry ∧ ∃ id o,
      w.openOrders.lookup id = some o ∧ o.1.symbol = req.symbol ∧ o.1.side = req.side ∧
        o.1.orderRole = .entry := by
  rw [isEntryDedup, decide_eq_true_iff]
  refine and_congr_right fun _ => ?_
  rw [List.any_eq_true]
  constructor
  · rintro ⟨e, he, hmatch⟩
    exact ⟨e.1, e.2, AList.mem_lookup_iff.mpr he, of_decide_eq_true hmatch⟩
  · rintro ⟨id, o, ho, hmatch⟩
    exact ⟨⟨id, o⟩, AList.mem_lookup_iff.mp ho, decide_eq_true hmatch⟩

theorem isEntryDedup_eq_false (h : ∀ id o, w.openOrders.lookup id = some o → o.1.orderRole ≠ .entry)
    (req : OrderRequest) : w.isEntryDedup req = false := by
  rw [← Bool.not_eq_true, isEntryDedup_iff]
  rintro ⟨-, id, o, ho, -, -, hrole⟩
  exact h id o ho hrole

section Rebuilt

variable {strategyName : String} {exchangeIds : List String} {v : OrderQueueWorker}

/-- Nothing but the role of an order is lost on the way through the table. -/
theorem terms_restored {o : OrderRequest × PlacedOrder} (h : o.1.strategy = strategyName) :
    ((openRow strategyName o).map (buildFromRow strategyName)).map terms =
      some (o.1.symbol, o.1.side, o.1.size, .other "") := by
  rw [openRow, if_pos h]
  simp [buildFromRow, buildRequest, orderRow, terms, OrderRole.ofText]

theorem Rebuilt.lookup_of_mem (h : Rebuilt strategyName exchangeIds w v) {id : String}
    (hid : id ∈ exchangeIds) {o : OrderRequest × PlacedOrder}
    (ho : w.openOrders.lookup id = some o) :
    v.openOrders.lookup id = (openRow strategyName o).map (buildFromRow strategyName) := by
  rw [h.lookup, if_pos hid, ho, Option.bind_some]

theorem Rebuilt.role (h : Rebuilt strategyName exchangeIds w v) {id : String}
    {o : OrderRequest × PlacedOrder} (ho : v.openOrders.lookup id = some o) :
    o.1.orderRole = .other "" := by
  rw [h.lookup] at ho
  split at ho
  · obtain ⟨row, hrow, rfl⟩ := Option.map_eq_some_iff.mp ho
    obtain ⟨o', -, ho'⟩ := Option.bind_eq_some_iff.mp hrow
    unfold openRow at ho'
    split at ho'
    · cases ho'
      rfl
    · cases ho'
  · cases ho

theorem reserved_restored (h : Rebuilt strategyName exchangeIds w v) (symbol : String)
    {o : OrderRequest × PlacedOrder} (hstrategy : o.1.strategy = strategyName) :
    ((openRow strategyName o).map (buildFromRow strategyName)).elim 0 (v.reserved symbol) =
      w.reserved symbol o := by
  rw [openRow, if_pos hstrategy]
  simp [buildFromRow, buildRequest, orderRow, reserved, orderNotional, h.portfolioValueUsd]

theorem Rebuilt.reserved_le (h : Rebuilt strategyName exchangeIds w v) (symbol id : String) :
    (v.openOrders.lookup id).elim 0 (v.reserved symbol) ≤
      (w.openOrders.lookup id).elim 0 (w.reserved symbol) := by
  rw [h.lookup]
  split
  · cases ho : w.openOrders.lookup id with
    | none => exact le_refl _
    | some o =>
        rw [Option.bind_some]
        by_cases hstrategy : o.1.strategy = strategyName
        · rw [reserved_restored h symbol hstrategy]
          exact le_refl _
        · rw [openRow, if_neg hstrategy]
          exact zero_le
  · exact zero_le

theorem Rebuilt.positionNotional_eq_iff (h : Rebuilt strategyName exchangeIds w v)
    (symbol : String) : v.positionNotional symbol = w.positionNotional symbol ↔
      ∀ id, (v.openOrders.lookup id).elim 0 (v.reserved symbol) =
        (w.openOrders.lookup id).elim 0 (w.reserved symbol) := by
  rw [h.new_reserves symbol, h.old_reserves symbol]
  exact total_eq_iff_of_le (h.reserved_le symbol)

theorem Rebuilt.nothingLost (h : Rebuilt strategyName exchangeIds w v)
    (hrecovered : Recovered exchangeIds w v) : NothingLost strategyName exchangeIds w := by
  refine ⟨fun id hid o ho => ?_, fun id o ho hrole => ?_, fun id hid o ho => ?_, fun symbol => ?_⟩
  · have hterms := hrecovered.openOrders id hid
    rw [h.lookup_of_mem hid ho, ho] at hterms
    by_cases hstrategy : o.1.strategy = strategyName
    · rw [terms_restored hstrategy] at hterms
      have hrole := congrArg (fun t => t.2.2.2) (Option.some.inj hterms)
      exact ⟨hstrategy, hrole.symm⟩
    · rw [openRow, if_neg hstrategy] at hterms
      cases hterms
  · -- The order itself would be a repeated one.
    have hold : w.isEntryDedup o.1 = true :=
      (isEntryDedup_iff w o.1).mpr ⟨hrole, id, o, ho, rfl, rfl, hrole⟩
    have hnew : v.isEntryDedup o.1 = false :=
      isEntryDedup_eq_false (fun id' o' ho' => by rw [h.role ho']; simp) o.1
    rw [← hrecovered.dedup, hnew] at hold
    cases hold
  · have heq := (h.positionNotional_eq_iff o.1.symbol).mp
      (congrFun hrecovered.positionNotional o.1.symbol) id
    rw [h.lookup, if_neg hid, ho, Option.elim_none, Option.elim_some, reserved, if_pos rfl] at heq
    exact heq.symm
  · rw [← hrecovered.positionQty, ← hrecovered.positionAvgPrice, h.positionQty,
      h.positionAvgPrice]
    exact ⟨rfl, rfl⟩

theorem Rebuilt.recovered (h : Rebuilt strategyName exchangeIds w v)
    (hlost : NothingLost strategyName exchangeIds w) : Recovered exchangeIds w v := by
  have hnotional : v.positionNotional = w.positionNotional := by
    funext symbol
    refine (h.positionNotional_eq_iff symbol).mpr fun id => ?_
    cases ho : w.openOrders.lookup id with
    | none =>
        rw [h.lookup, ho]
        split <;> rfl
    | some o =>
        by_cases hid : id ∈ exchangeIds
        · rw [h.lookup_of_mem hid ho, reserved_restored h symbol (hlost.roles id hid o ho).1]
          rfl
        · rw [h.lookup, if_neg hid, Option.elim_none, Option.elim_some, reserved,
            hlost.unreserved id hid o ho, ite_self]
  refine ⟨fun id hid => ?_, hnotional, ?_, ?_, fun req => ?_, fun req => ?_⟩
  · cases ho : w.openOrders.lookup id with
    | none =>
        rw [h.lookup, if_pos hid, ho]
        rfl
    | some o =>
        obtain ⟨hstrategy, hrole⟩ := hlost.roles id hid o ho
        rw [h.lookup_of_mem hid ho, terms_restored hstrategy, Option.map_some, terms, hrole]
  · rw [h.positionQty]
    exact funext fun symbol => (hlost.flat symbol).1.symm
  · rw [h.positionAvgPrice]
    exact funext fun symbol => (hlost.flat symbol).2.symm
  · rw [isEntryDedup_eq_false hlost.entries,
      isEntryDedup_eq_false fun id o ho => by rw [h.role ho]; simp]
  · rw [exceedsRiskGate, exceedsRiskGate, hnotional, h.maxPositionPct, h.portfolioValueUsd,
      orderNotional_congr h.portfolioValueUsd]

end Rebuilt

/-- **A worker is recovered exactly when there is nothing to lose:** the orders that are still open
have no role, no order is open as an entry, those that are gone reserve nothing, and all positions
are flat. -/
theorem recovered_iff {strategyName : String} {pct portfolio : ℚ≥0} {limit : ℚ} {is : List Input}
    {fills : List OrderFilled} {exchangeIds : List String}
    (horderly : Along step Orderly (new strategyName pct portfolio limit) is)
    (htrue : ∀ f ∈ fills, f.orderId ∉ exchangeIds) :
    let old := final step (new strategyName pct portfolio limit) is
    let table := rowsOf (trace step (new strategyName pct portfolio limit) is)
    Recovered exchangeIds (survivor old fills)
        (restarted strategyName pct portfolio limit table exchangeIds) ↔
      NothingLost strategyName exchangeIds (survivor old fills) := by
  intro old table
  have hrebuilt : Rebuilt strategyName exchangeIds (survivor old fills)
      (restarted strategyName pct portfolio limit table exchangeIds) := rebuilt horderly htrue
  exact ⟨hrebuilt.nothingLost, hrebuilt.recovered⟩

/-! ### Two crashes -/

/-- An order is placed and entered. -/
def enteredOrder (role : OrderRole) : List Input :=
  [.post (tenthOrder "MACrossBot" role .buy), .check false, .take,
    .response (.returned ⟨"o1", "", .placed, 0⟩), .written]

theorem positions_run : ∀ (is : List Input) (w : OrderQueueWorker), (∀ f, .fill f ∉ is) →
    (final step w is).positionQty = w.positionQty ∧
      (final step w is).positionAvgPrice = w.positionAvgPrice
  | [], _, _ => ⟨rfl, rfl⟩
  | i :: is, w, hfill => by
      obtain ⟨hqty, hprice⟩ := position_step (w := w) (i := i) fun f hf =>
        hfill f (hf ▸ List.mem_cons_self)
      obtain ⟨hqty', hprice'⟩ := positions_run is (step w i).1 fun f hf =>
        hfill f (List.mem_cons_of_mem _ hf)
      exact ⟨hqty'.trans hqty, hprice'.trans hprice⟩

theorem positions_settled (w : OrderQueueWorker) :
    w.settled.positionQty = w.positionQty ∧
      w.settled.positionAvgPrice = w.positionAvgPrice := by
  unfold settled
  split <;> exact ⟨rfl, rfl⟩

/-- An order without a role is still open after the crash, and comes back. -/
theorem recovered_iff_restored :
    let old := final step (new "MACrossBot" (1 / 2) 1000 0) (enteredOrder (.other ""))
    let new' := restarted "MACrossBot" (1 / 2) 1000 0
      (rowsOf (trace step (new "MACrossBot" (1 / 2) 1000 0) (enteredOrder (.other "")))) ["o1"]
    Recovered ["o1"] (survivor old []) new' ∧ "o1" ∈ new'.openOrders := by
  intro old new'
  have hopen : ∀ id o, (survivor old []).openOrders.lookup id = some o →
      id = "o1" ∧ o.1.strategy = "MACrossBot" ∧ o.1.orderRole = .other "" := by
    intro id o ho
    have hmem : id ∈ (survivor old []).openOrders := AList.lookup_isSome.mp (by rw [ho]; rfl)
    have hkeys : (survivor old []).openOrders.keys = ["o1"] := by decide +kernel
    have hid : id = "o1" := by
      rw [AList.mem_keys, hkeys] at hmem
      exact List.mem_singleton.mp hmem
    subst hid
    have hlookup : ((survivor old []).openOrders.lookup "o1").map
        (fun o => (o.1.strategy, o.1.orderRole)) = some ("MACrossBot", .other "") := by
      decide +kernel
    rw [ho, Option.map_some, Option.some.injEq, Prod.mk.injEq] at hlookup
    exact ⟨rfl, hlookup⟩
  have hnothing : NothingLost "MACrossBot" ["o1"] (survivor old []) := by
    constructor
    case roles => exact fun id _ o ho => (hopen id o ho).2
    case entries =>
      intro id o ho hentry
      rw [(hopen id o ho).2.2] at hentry
      cases hentry
    case unreserved => exact fun id hid o ho => absurd (hopen id o ho).1 (by simpa using hid)
    case flat =>
      intro symbol
      obtain ⟨hqty, hprice⟩ := positions_settled old
      obtain ⟨hqty', hprice'⟩ := positions_run (enteredOrder (.other ""))
        (new "MACrossBot" (1 / 2) 1000 0) (by simp [enteredOrder])
      exact ⟨congrFun (hqty.trans hqty') symbol, congrFun (hprice.trans hprice') symbol⟩
  have horderly : Along step Orderly (new "MACrossBot" (1 / 2) 1000 0)
      (enteredOrder (.other "")) :=
    ⟨trivial, trivial, trivial, ⟨by decide, by decide +kernel⟩, trivial, trivial⟩
  exact ⟨(recovered_iff horderly (by simp)).mpr hnothing, by decide +kernel⟩

/-- An open entry comes back without its role. -/
theorem entry_not_recovered :
    ¬ Recovered ["o1"]
      (survivor (final step (halfOfThousand "MACrossBot") (enteredOrder .entry)) [])
      (restarted "MACrossBot" (1 / 2) 1000 0
        (rowsOf (trace step (halfOfThousand "MACrossBot") (enteredOrder .entry))) ["o1"]) := by
  intro h
  have hterms := h.openOrders "o1" (by decide)
  revert hterms
  decide +kernel

end MagnumOpus.Bot.OrderQueueWorker
