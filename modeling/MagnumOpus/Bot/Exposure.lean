import Mathlib.Data.Fintype.EquivFin
import MagnumOpus.Bot.OrderWorkerSteps

/-! # The exposure of an order worker

The risk gate compares an entry order with what the worker has reserved for its symbol.  Every order
reserves its notional when it is placed, an exit too, and a fill releases it; so what is *held* is
not counted.

* **The purpose.** `Bounded`: in no symbol do the held position and the open entry orders exceed
  the share of the portfolio that a position may have.  `FreesExactly`: from its placement to its
  fill, an exit that reduces the position makes as much room as it takes off.
* **The gate with the right counter.** `counting` is the worker whose counter has the held
  position, the open entries and the entry that is being placed.  A step `Fits` when what it lets
  through would pass the gate of that worker, and when no exit reduces a position.
* **The invariant.** `Within`: the right counter is in its bound.

The bound holds in the runs whose steps fit, and fails in every other one as soon as the exchange
accepts the order that is being placed (`bounded_iff_fits`). -/

namespace MagnumOpus.Bot.OrderQueueWorker

open EventMachine KeyedSum

/-- A worker with the share of the portfolio that it holds in each symbol. -/
abbrev Holding := OrderQueueWorker × (String → ℚ≥0)

/-- The open order that a step fills. -/
def filledOrder (w : OrderQueueWorker) : Input → Option (OrderRequest × PlacedOrder)
  | .fill f => if f.orderId ∈ w.seenFillIds then none else w.openOrders.lookup f.orderId
  | _ => none

/-- What is held after an order of this size has been filled. -/
def heldAfter (held : String → ℚ≥0) (req : OrderRequest) : String → ℚ≥0 :=
  Function.update held req.symbol
    (match req.side with
      | .buy => held req.symbol + req.size
      | .sell => held req.symbol - req.size)

/-- A step with what is held. -/
def heldStep : Step Holding Input OrderEffect := fun p i =>
  (((step p.1 i).1,
    match filledOrder p.1 i with
    | some (req, _) => heldAfter p.2 req
    | none => p.2), (step p.1 i).2)

/-- The notional of an open entry order of a symbol. -/
def entryNotional (w : OrderQueueWorker) (symbol : String) (o : OrderRequest × PlacedOrder) : ℚ≥0 :=
  if o.1.symbol = symbol ∧ o.1.orderRole = .entry then w.orderNotional o.1 else 0

/-- The notional of the held position and of the open entry orders of a symbol. -/
def exposure (p : Holding) (symbol : String) : ℚ≥0 :=
  p.2 symbol * p.1.portfolioValueUsd + total (p.1.entryNotional symbol) p.1.openOrders

/-- The notional that a symbol may have. -/
def maxAllowed (w : OrderQueueWorker) : ℚ≥0 := w.maxPositionPct * w.portfolioValueUsd

/-- No symbol exceeds what it may have. -/
def Bounded (p : Holding) : Prop := ∀ symbol, exposure p symbol ≤ p.1.maxAllowed

/-- From before its placement, when its own notional was not reserved, to its fill an exit that
reduces the position takes off what is reserved as much as off what is held. -/
def FreesExactly (p : Holding) (i : Input) : Prop :=
  ∀ o ∈ filledOrder p.1 i, o.1.orderRole ≠ .entry →
    heldAfter p.2 o.1 o.1.symbol < p.2 o.1.symbol →
      (step p.1 i).1.positionNotional o.1.symbol +
          (p.2 o.1.symbol - heldAfter p.2 o.1 o.1.symbol) * p.1.portfolioValueUsd +
          p.1.orderNotional o.1 =
        p.1.positionNotional o.1.symbol

/-- What the claim is about, at one step. -/
def Good (p : Holding) (i : Input) : Prop := Bounded (heldStep p i).1 ∧ FreesExactly p i

/-! ### The right counter -/

/-- The entry order that is being placed, if there is one. -/
def pendingEntry (w : OrderQueueWorker) : Option OrderRequest :=
  match w.stage with
  | .placing req => if req.orderRole = .entry then some req else none
  | .persisting req _ => if req.orderRole = .entry then some req else none
  | _ => none

/-- Its notional, in its symbol. -/
def pendingNotional (w : OrderQueueWorker) (symbol : String) : ℚ≥0 :=
  w.pendingEntry.elim 0 fun req => if req.symbol = symbol then w.orderNotional req else 0

/-- What is held, what the open entries may add, and what the entry that is being placed may. -/
def committed (p : Holding) (symbol : String) : ℚ≥0 :=
  exposure p symbol + p.1.pendingNotional symbol

/-- The worker, with the counter that the gate would need. -/
def counting (p : Holding) : OrderQueueWorker := { p.1 with positionNotional := committed p }

/-- An entry that passes the gate would pass it with the right counter, and so would an exit or stop
order that has bought, if it were an entry.  No exit reduces a position of a portfolio that is worth
something. -/
structure Fits (p : Holding) (i : Input) : Prop where
  gate : ∀ req ∈ admittedEntry p.1 i, (counting p).exceedsRiskGate req = false
  buys : ∀ o ∈ filledOrder p.1 i, o.1.orderRole ≠ .entry → o.1.side = .buy →
    (counting p).exceedsRiskGate { o.1 with orderRole := .entry } = false
  sells : ∀ o ∈ filledOrder p.1 i, o.1.orderRole ≠ .entry →
    heldAfter p.2 o.1 o.1.symbol < p.2 o.1.symbol → p.1.portfolioValueUsd = 0

instance (p : Holding) (i : Input) : Decidable (Fits p i) :=
  decidable_of_iff
    ((∀ req ∈ admittedEntry p.1 i, (counting p).exceedsRiskGate req = false) ∧
      (∀ o ∈ filledOrder p.1 i, o.1.orderRole ≠ .entry → o.1.side = .buy →
        (counting p).exceedsRiskGate { o.1 with orderRole := .entry } = false) ∧
      ∀ o ∈ filledOrder p.1 i, o.1.orderRole ≠ .entry →
        heldAfter p.2 o.1 o.1.symbol < p.2 o.1.symbol → p.1.portfolioValueUsd = 0)
    ⟨fun h => ⟨h.1, h.2.1, h.2.2⟩, fun h => ⟨h.gate, h.buys, h.sells⟩⟩

/-- The exchange accepts the order that is being placed, and its row is written. -/
def accepts (id : String) : List Input := [.response (.returned ⟨id, "", .placed, 0⟩), .written]

/-- The exchange gives an order an id that no open order has. -/
def GivesNewId (p : Holding) : Input → Prop
  | .response (.returned q) => q.orderId ∉ p.1.openOrders
  | _ => True

instance (p : Holding) : (i : Input) → Decidable (GivesNewId p i)
  | .response (.returned q) => inferInstanceAs (Decidable (q.orderId ∉ p.1.openOrders))
  | .response .restError | .response .raised | .post _ | .check _ | .take | .timeout | .written
  | .fill _ | .booked _ | .cancel => inferInstanceAs (Decidable True)

/-! ### The invariants -/

/-- The right counter is in its bound. -/
def Within (p : Holding) : Prop := ∀ symbol, committed p symbol ≤ p.1.maxAllowed

/-- The open orders have reserved their notional. -/
def Covers (w : OrderQueueWorker) : Prop :=
  ∀ symbol, total (w.reserved symbol) w.openOrders ≤ w.positionNotional symbol

/-- The order whose row is being written is not open yet. -/
def PersistsNew (w : OrderQueueWorker) : Prop :=
  ∀ req q, w.stage = .persisting req q → q.orderId ∉ w.openOrders

variable {w v : OrderQueueWorker} {held : String → ℚ≥0} {i : Input}

theorem Within.bounded {p : Holding} (h : Within p) : Bounded p := fun symbol =>
  le_self_add.trans (h symbol)

theorem gate_counting (p : Holding) {req : OrderRequest} (hrole : req.orderRole = .entry) :
    (counting p).exceedsRiskGate req = false ↔
      committed p req.symbol + p.1.orderNotional req ≤ p.1.maxAllowed := by
  have hgated : req.orderRole ∉ [OrderRole.exit, .stop] := by simp [hrole]
  rw [exceedsRiskGate, decide_eq_false_iff_not, and_iff_right hgated, not_lt]
  rfl

theorem gate_counting_asEntry (p : Holding) (req : OrderRequest) :
    (counting p).exceedsRiskGate { req with orderRole := .entry } = false ↔
      committed p req.symbol + p.1.orderNotional req ≤ p.1.maxAllowed :=
  @gate_counting p { req with orderRole := .entry } rfl

theorem mem_pendingEntry {req : OrderRequest} :
    req ∈ w.pendingEntry ↔ req.orderRole = .entry ∧
      (w.stage = .placing req ∨ ∃ q, w.stage = .persisting req q) := by
  unfold pendingEntry
  cases w.stage with
  | placing r => by_cases hr : r.orderRole = .entry <;> grind
  | persisting r q =>
      simp only [Stage.persisting.injEq, reduceCtorEq, false_or]
      split <;> simp <;> grind
  | _ => simp

theorem exposure_congr (hopen : v.openOrders = w.openOrders)
    (hport : v.portfolioValueUsd = w.portfolioValueUsd) :
    exposure (v, held) = exposure (w, held) := by
  funext symbol
  have hentry : v.entryNotional symbol = w.entryNotional symbol := by
    funext o
    rw [entryNotional, entryNotional, orderNotional_congr hport]
  simp only [exposure, hport, hopen, hentry]

theorem pendingNotional_congr (hstage : v.stage = w.stage)
    (hport : v.portfolioValueUsd = w.portfolioValueUsd) :
    v.pendingNotional = w.pendingNotional := by
  funext symbol
  simp only [pendingNotional, pendingEntry, hstage, orderNotional_congr hport]

/-! ### Insertions -/

theorem exposure_insertOpen_le (w : OrderQueueWorker) (req : OrderRequest) (q : PlacedOrder)
    (symbol : String) : exposure (w.insertOpen req q, held) symbol ≤
      exposure (w, held) symbol + w.entryNotional symbol (req, q) := by
  have htotal := total_insert_le (w.entryNotional symbol) w.openOrders q.orderId (req, q)
  calc exposure (w.insertOpen req q, held) symbol
      = held symbol * w.portfolioValueUsd +
          total (w.entryNotional symbol) (w.openOrders.insert q.orderId (req, q)) := rfl
    _ ≤ held symbol * w.portfolioValueUsd +
          (w.entryNotional symbol (req, q) + total (w.entryNotional symbol) w.openOrders) :=
        add_le_add_right htotal _
    _ = exposure (w, held) symbol + w.entryNotional symbol (req, q) := by
        rw [exposure, add_assoc, add_comm (total _ _)]

theorem exposure_insertOpen {req : OrderRequest} {q : PlacedOrder}
    (hnew : q.orderId ∉ w.openOrders) (symbol : String) :
    exposure (w.insertOpen req q, held) symbol =
      exposure (w, held) symbol + w.entryNotional symbol (req, q) := by
  have htotal := total_insert (w.entryNotional symbol) (req, q) hnew
  calc exposure (w.insertOpen req q, held) symbol
      = held symbol * w.portfolioValueUsd +
          total (w.entryNotional symbol) (w.openOrders.insert q.orderId (req, q)) := rfl
    _ = exposure (w, held) symbol + w.entryNotional symbol (req, q) := by
        rw [htotal, exposure, add_assoc, add_comm (total _ _)]

/-- The notional of an order that is being placed, once it is open. -/
theorem pendingNotional_eq {req : OrderRequest} (q : PlacedOrder)
    (hs : w.stage = .placing req ∨ ∃ q', w.stage = .persisting req q') (symbol : String) :
    w.pendingNotional symbol = w.entryNotional symbol (req, q) := by
  have hpending : w.pendingEntry = if req.orderRole = .entry then some req else none := by
    rcases hs with hs | ⟨q', hs⟩ <;> simp only [pendingEntry, hs]
  rw [pendingNotional, hpending, entryNotional]
  by_cases hrole : req.orderRole = .entry
  · rw [if_pos hrole]
    simp [hrole]
  · rw [if_neg hrole, if_neg fun h => hrole h.2]
    rfl

theorem within_insert {req : OrderRequest} {q : PlacedOrder} (h : Within (w, held))
    (hs : w.stage = .persisting req q) : Within (w.insertOpen req q, held) := by
  intro symbol
  have hnone : (w.insertOpen req q).pendingNotional symbol = 0 := rfl
  rw [committed, hnone, add_zero]
  refine (exposure_insertOpen_le w req q symbol).trans ?_
  rw [← pendingNotional_eq q (.inr ⟨q, hs⟩)]
  exact h symbol

theorem covers_insert (h : Covers w) (req : OrderRequest) (q : PlacedOrder) :
    Covers (w.insertOpen req q) := by
  intro symbol
  refine (total_insert_le (w.reserved symbol) w.openOrders q.orderId (req, q)).trans ?_
  show _ ≤ Function.update w.positionNotional req.symbol _ symbol
  by_cases hsym : symbol = req.symbol
  · subst hsym
    rw [Function.update_self, reserved, if_pos rfl, add_comm]
    exact add_le_add_left (h req.symbol) _
  · rw [Function.update_of_ne hsym, reserved, if_neg (Ne.symm hsym), zero_add]
    exact h symbol

/-! ### Fills -/

section Fill

variable {f : OrderFilled} {req : OrderRequest} {q : PlacedOrder}

/-- A fill moves an entry from the open orders to the position, or takes off the position; only a
purchase that is no entry adds to it. -/
theorem exposure_fill_le (hv : Filled w f req v)
    (hopen : w.openOrders.lookup f.orderId = some (req, q)) (symbol : String) :
    exposure (v, heldAfter held req) symbol ≤ exposure (w, held) symbol +
      if req.symbol = symbol ∧ req.orderRole ≠ .entry ∧ req.side = .buy then w.orderNotional req
      else 0 := by
  have hentry : v.entryNotional = w.entryNotional := by
    funext symbol o
    rw [entryNotional, entryNotional, orderNotional_congr hv.portfolioValueUsd]
  have htotal : w.entryNotional symbol (req, q) + total (w.entryNotional symbol) v.openOrders =
      total (w.entryNotional symbol) w.openOrders := by
    rw [hv.openOrders]
    exact total_erase _ hopen
  have hless : total (w.entryNotional symbol) v.openOrders ≤
      total (w.entryNotional symbol) w.openOrders := htotal ▸ le_add_self
  simp only [exposure, hv.portfolioValueUsd, hentry]
  by_cases hsym : symbol = req.symbol
  · subst hsym
    rw [heldAfter, Function.update_self]
    cases hreq : req.side with
    | sell =>
        have hdown : held req.symbol - req.size ≤ held req.symbol := tsub_le_self
        exact (add_le_add (mul_le_mul_left hdown _) hless).trans le_self_add
    | buy =>
        by_cases hrole : req.orderRole = .entry
        · rw [if_neg fun h => h.2.1 hrole, add_zero, ← htotal, entryNotional,
            if_pos ⟨rfl, hrole⟩, add_mul, add_assoc]
          rfl
        · rw [if_pos ⟨rfl, hrole, rfl⟩, add_mul, add_right_comm]
          exact add_le_add_left (add_le_add_right hless _) _
  · rw [heldAfter, Function.update_of_ne hsym, if_neg fun h => hsym h.1.symm, add_zero]
    exact add_le_add_right hless _

theorem exposure_fill_buy (hv : Filled w f req v)
    (hopen : w.openOrders.lookup f.orderId = some (req, q)) (hrole : req.orderRole ≠ .entry)
    (hbuy : req.side = .buy) : exposure (v, heldAfter held req) req.symbol =
      exposure (w, held) req.symbol + w.orderNotional req := by
  have hentry : v.entryNotional = w.entryNotional := by
    funext symbol o
    rw [entryNotional, entryNotional, orderNotional_congr hv.portfolioValueUsd]
  have htotal : total (w.entryNotional req.symbol) v.openOrders =
      total (w.entryNotional req.symbol) w.openOrders := by
    rw [hv.openOrders, ← total_erase (w.entryNotional req.symbol) hopen, entryNotional,
      if_neg fun h => hrole h.2, zero_add]
  simp only [exposure, hv.portfolioValueUsd, hentry, htotal, heldAfter, Function.update_self, hbuy,
    add_mul]
  exact add_right_comm _ _ _

theorem within_fill (h : Within (w, held)) (hv : Filled w f req v)
    (hopen : w.openOrders.lookup f.orderId = some (req, q))
    (hbuys : req.orderRole ≠ .entry → req.side = .buy →
      committed (w, held) req.symbol + w.orderNotional req ≤ w.maxAllowed) :
    Within (v, heldAfter held req) := by
  have hmax : v.maxAllowed = w.maxAllowed := by
    rw [maxAllowed, maxAllowed, hv.portfolioValueUsd, hv.maxPositionPct]
  intro symbol
  rw [committed, hmax, pendingNotional_congr hv.stage hv.portfolioValueUsd]
  refine (add_le_add_left (exposure_fill_le hv hopen symbol) _).trans ?_
  split
  · next hbought =>
      obtain ⟨rfl, hrole, hbuy⟩ := hbought
      rw [add_right_comm]
      exact hbuys hrole hbuy
  · rw [add_zero]
    exact h symbol

/-- An open order has reserved its notional, and a fill releases it. -/
theorem orderNotional_le (h : Covers w) (hopen : w.openOrders.lookup f.orderId = some (req, q)) :
    w.orderNotional req ≤ w.positionNotional req.symbol := by
  have htotal := total_erase (w.reserved req.symbol) hopen
  rw [reserved, if_pos rfl] at htotal
  exact (htotal ▸ le_self_add).trans (h req.symbol)

theorem covers_fill (h : Covers w) (hv : Filled w f req v)
    (hopen : w.openOrders.lookup f.orderId = some (req, q)) : Covers v := by
  intro symbol
  have htotal : w.reserved symbol (req, q) + total (w.reserved symbol) v.openOrders =
      total (w.reserved symbol) w.openOrders := by
    rw [hv.openOrders]
    exact total_erase _ hopen
  have hcover := h symbol
  rw [← htotal] at hcover
  rw [reserved_congr hv.portfolioValueUsd, hv.positionNotional]
  by_cases hsym : symbol = req.symbol
  · subst hsym
    rw [Function.update_self]
    rw [reserved, if_pos rfl] at hcover
    exact le_tsub_of_add_le_left hcover
  · rw [Function.update_of_ne hsym]
    exact le_add_self.trans hcover

end Fill

theorem filledOrder_eq {p : Holding} {o : OrderRequest × PlacedOrder}
    (h : o ∈ filledOrder p.1 i) : ∃ f, i = .fill f ∧ f.orderId ∉ p.1.seenFillIds ∧
      p.1.openOrders.lookup f.orderId = some o := by
  cases i with
  | fill f =>
      by_cases hseen : f.orderId ∈ p.1.seenFillIds
      · rw [filledOrder, if_pos hseen] at h
        cases h
      · rw [filledOrder, if_neg hseen] at h
        exact ⟨f, rfl, hseen, h⟩
  | _ => cases h

/-! ### One step -/

/-- What a step does to the open orders and to what is reserved and held. -/
inductive Recorded (w : OrderQueueWorker) (held : String → ℚ≥0) (i : Input) : Holding → Prop
  | inserted {req : OrderRequest} {q : PlacedOrder} (hi : i = .written)
      (hs : w.stage = .persisting req q) : Recorded w held i (w.insertOpen req q, held)
  | filled {f : OrderFilled} {req : OrderRequest} {q : PlacedOrder} {v : OrderQueueWorker}
      (ho : filledOrder w i = some (req, q)) (hv : Filled w f req v)
      (hopen : w.openOrders.lookup f.orderId = some (req, q)) :
      Recorded w held i (v, heldAfter held req)
  | kept {v : OrderQueueWorker} (hopen : v.openOrders = w.openOrders)
      (hpos : v.positionNotional = w.positionNotional)
      (hport : v.portfolioValueUsd = w.portfolioValueUsd)
      (hpct : v.maxPositionPct = w.maxPositionPct)
      (hpend : ∀ req ∈ v.pendingEntry, req ∈ w.pendingEntry ∨ req ∈ admittedEntry w i)
      (hnew : ∀ req q, v.stage = .persisting req q →
        w.stage = .persisting req q ∨ i = .response (.returned q)) :
      Recorded w held i (v, held)

theorem booked_step (w : OrderQueueWorker) (held : String → ℚ≥0) (i : Input) :
    Recorded w held i (heldStep (w, held) i).1 := by
  by_cases hins : ∃ req q, Inserts w i req q
  · obtain ⟨req, q, hins⟩ := hins
    have hnone : filledOrder w i = none := by rw [hins.1]; rfl
    simp only [heldStep, step_insert hins, hnone]
    exact .inserted hins.1 hins.2
  · have hins' : ∀ req q, ¬ Inserts w i req q := fun req q hx => hins ⟨req, q, hx⟩
    by_cases hfill : ∃ f, i = .fill f
    · obtain ⟨f, rfl⟩ := hfill
      by_cases hseen : f.orderId ∈ w.seenFillIds
      · simp only [heldStep, step_fill_seen hseen, filledOrder, if_pos hseen]
        exact .kept rfl rfl rfl rfl (fun _ h => .inl h) fun _ _ h => .inl h
      · cases hopen : w.openOrders.lookup f.orderId with
        | none =>
            simp only [heldStep, step_fill_unknown hseen hopen, filledOrder, if_neg hseen, hopen]
            exact .kept rfl rfl rfl rfl (fun _ h => .inl h) fun _ _ h => .inl h
        | some o =>
            obtain ⟨req, q⟩ := o
            have ho : filledOrder w (.fill f) = some (req, q) := by
              rw [filledOrder, if_neg hseen, hopen]
            simp only [heldStep, ho]
            exact .filled ho (step_fill_known hseen hopen).1 hopen
    · have hk := step_keeps hins' fun f hf => hfill ⟨f, hf⟩
      have hnone : filledOrder w i = none := by
        cases i with
        | fill f => exact absurd ⟨f, rfl⟩ hfill
        | _ => rfl
      simp only [heldStep, hnone]
      refine .kept hk.books.openOrders hk.books.positionNotional hk.books.portfolioValueUsd
        hk.books.maxPositionPct (fun req hreq => ?_) fun req q hs => ?_
      · obtain ⟨hrole, hstage⟩ := mem_pendingEntry.mp hreq
        -- What is being placed was being placed before, or has just been taken from the queue.
        rcases hstage with hstage | ⟨q, hstage⟩
        · rcases hk.placing req hstage with hs | ⟨hi, hs, hq, hadm⟩
          · exact .inl (mem_pendingEntry.mpr ⟨hrole, .inl hs⟩)
          · exact .inr (admittedEntry_eq hi hs hq hadm hrole)
        · rcases hk.persisting req q hstage with hs | ⟨hs, -⟩
          · exact .inl (mem_pendingEntry.mpr ⟨hrole, .inr ⟨q, hs⟩⟩)
          · exact .inl (mem_pendingEntry.mpr ⟨hrole, .inl hs⟩)
      · exact (hk.persisting req q hs).imp_right fun h => h.2.1

theorem within_step {p : Holding} (h : Within p) (hfits : Fits p i) : Within (heldStep p i).1 := by
  obtain ⟨w, held⟩ := p
  have hbooked := booked_step w held i
  generalize (heldStep (w, held) i).1 = p' at hbooked
  cases hbooked with
  | inserted hi hs => exact within_insert h hs
  | @filled f req q v ho hv hopen =>
      refine within_fill h hv hopen fun hrole hbuy => ?_
      exact (gate_counting_asEntry (w, held) req).mp (hfits.buys (req, q) ho hrole hbuy)
  | @kept v hopen hpos hport hpct hpend hnew =>
      have hmax : v.maxAllowed = w.maxAllowed := by rw [maxAllowed, maxAllowed, hport, hpct]
      intro symbol
      rw [committed, exposure_congr hopen hport, hmax]
      cases hentry : v.pendingEntry with
      | none =>
          rw [pendingNotional, hentry]
          exact (add_zero _).le.trans (le_self_add.trans (h symbol))
      | some req =>
          rcases hpend req hentry with hold | hadmitted
          · have hsame : v.pendingNotional symbol = w.pendingNotional symbol := by
              rw [pendingNotional, pendingNotional, hentry, Option.mem_def.mp hold,
                orderNotional_congr hport]
            rw [hsame]
            exact h symbol
          · have hgate := (gate_counting (w, held)
              (step_of_admittedEntry hadmitted).2.2.1).mp (hfits.gate req hadmitted)
            rw [pendingNotional, hentry, Option.elim_some, orderNotional_congr hport]
            split
            · next hsym =>
                subst hsym
                exact (add_le_add_left le_self_add _).trans hgate
            · exact (add_zero _).le.trans (le_self_add.trans (h symbol))

theorem covers_step {p : Holding} (h : Covers p.1) : Covers (heldStep p i).1.1 := by
  obtain ⟨w, held⟩ := p
  have hbooked := booked_step w held i
  generalize (heldStep (w, held) i).1 = p' at hbooked
  cases hbooked with
  | inserted hi hs => exact covers_insert h _ _
  | filled ho hv hopen => exact covers_fill h hv hopen
  | kept hopen hpos hport hpct hpend hnew =>
      intro symbol
      show total (reserved _ symbol) _ ≤ _
      rw [hopen, hpos, reserved_congr hport]
      exact h symbol

theorem persistsNew_step {p : Holding} (h : PersistsNew p.1) (hgives : GivesNewId p i) :
    PersistsNew (heldStep p i).1.1 := by
  obtain ⟨w, held⟩ := p
  have hbooked := booked_step w held i
  generalize (heldStep (w, held) i).1 = p' at hbooked
  cases hbooked with
  | inserted hi hs => exact fun req q hstage => by cases hstage
  | filled ho hv hopen =>
      intro req q hstage
      show q.orderId ∉ _
      rw [hv.openOrders]
      rw [hv.stage] at hstage
      exact fun hmem => h req q hstage (AList.mem_erase.mp hmem).2
  | kept hopen hpos hport hpct hpend hnew =>
      intro req q hstage
      show q.orderId ∉ _
      rw [hopen]
      rcases hnew req q hstage with hold | rfl
      · exact h req q hold
      · exact hgives

/-- From its placement on an exit has what it frees reserved, so that it makes room only when
nothing is worth anything. -/
theorem freesExactly_iff {p : Holding} (h : Covers p.1) : FreesExactly p i ↔
    ∀ o ∈ filledOrder p.1 i, o.1.orderRole ≠ .entry →
      heldAfter p.2 o.1 o.1.symbol < p.2 o.1.symbol → p.1.portfolioValueUsd = 0 := by
  refine forall₂_congr fun o ho => forall₂_congr fun hrole hless => ?_
  obtain ⟨f, rfl, hseen, hopen⟩ := filledOrder_eq ho
  obtain ⟨req, q⟩ := o
  have hreserved := orderNotional_le h hopen
  have hdiff : p.2 req.symbol - heldAfter p.2 req req.symbol ≠ 0 := (tsub_pos_of_lt hless).ne'
  rw [(step_fill_known hseen hopen).1.positionNotional, Function.update_self, add_right_comm,
    tsub_add_cancel_of_le hreserved, add_eq_left, mul_eq_zero, or_iff_right hdiff]

/-! ### Acceptance -/

section Accepts

variable {p : Holding} {id : String}

theorem exposure_accepts {req : OrderRequest} (hs : p.1.stage = .placing req)
    (hnew : id ∉ p.1.openOrders) :
    exposure (final heldStep p (accepts id)) = committed p := by
  obtain ⟨w, held⟩ := p
  replace hs : w.stage = .placing req := hs
  funext symbol
  have hfinal : final heldStep (w, held) (accepts id) =
      (({ w with stage := .persisting req ⟨id, "", .placed, 0⟩ } : OrderQueueWorker).insertOpen req
        ⟨id, "", .placed, 0⟩, held) := by
    simp only [accepts, final_cons, final_nil, heldStep, filledOrder, step, hs, placed]
  rw [hfinal, exposure_insertOpen hnew, committed,
    pendingNotional_eq ⟨id, "", .placed, 0⟩ (.inl hs)]
  rfl

theorem exposure_accepts_persisting {req : OrderRequest} {q : PlacedOrder}
    (hs : p.1.stage = .persisting req q) (hnew : q.orderId ∉ p.1.openOrders) :
    exposure (final heldStep p (accepts id)) = committed p := by
  obtain ⟨w, held⟩ := p
  replace hs : w.stage = .persisting req q := hs
  funext symbol
  have hfinal : final heldStep (w, held) (accepts id) = (w.insertOpen req q, held) := by
    simp only [accepts, final_cons, final_nil, heldStep, filledOrder, step, hs]
  rw [hfinal, exposure_insertOpen hnew, committed, pendingNotional_eq q (.inr ⟨q, hs⟩)]

theorem within_of_accepts (hnew : PersistsNew p.1) (hbounded : Bounded p)
    (h : ∀ id, Bounded (final heldStep p (accepts id))) : Within p := by
  have hlimits : ∀ id, (final heldStep p (accepts id)).1.maxAllowed = p.1.maxAllowed := by
    intro id
    obtain ⟨hvalue, hpct⟩ := limits_run (accepts id) p.1
    show (final step p.1 (accepts id)).maxAllowed = p.1.maxAllowed
    rw [maxAllowed, maxAllowed, hvalue, hpct]
  have hof : ∀ id, exposure (final heldStep p (accepts id)) = committed p → Within p := by
    intro id hexposure symbol
    rw [← hexposure, ← hlimits id]
    exact h id symbol
  cases hstage : p.1.stage with
  | placing req =>
      obtain ⟨id, hid⟩ := Infinite.exists_notMem_finset p.1.openOrders.keys.toFinset
      refine hof id (exposure_accepts hstage fun hmem => hid ?_)
      exact List.mem_toFinset.mpr (AList.mem_keys.mp hmem)
  | persisting req q => exact hof "" (exposure_accepts_persisting hstage (hnew req q hstage))
  | _ =>
      intro symbol
      have hnone : p.1.pendingNotional symbol = 0 := by
        rw [pendingNotional, pendingEntry, hstage]
        rfl
      rw [committed, hnone, add_zero]
      exact hbounded symbol

end Accepts

/-- A step whose right counter stays in its bound lets through only what fits. -/
theorem fits_of_within {p : Holding} (hcovers : Covers p.1) (h : Within (heldStep p i).1)
    (hfrees : FreesExactly p i) : Fits p i where
  sells := (freesExactly_iff hcovers).mp hfrees
  gate req hreq := by
    obtain ⟨w, held⟩ := p
    obtain ⟨rfl, hwaiting, hrole, rest, hstep⟩ := step_of_admittedEntry hreq
    have hafter := h req.symbol
    have hnext : (heldStep (w, held) .take).1 =
        ({ w with queue := rest, stage := .placing req }, held) := by
      rw [heldStep, hstep]
      rfl
    have hnone : w.pendingNotional req.symbol = 0 := by
      rw [pendingNotional, pendingEntry, hwaiting]
      rfl
    have hpending : pendingNotional { w with queue := rest, stage := .placing req } req.symbol =
        w.orderNotional req := by
      rw [pendingNotional_eq ⟨"", "", .placed, 0⟩ (.inl rfl), entryNotional, if_pos ⟨rfl, hrole⟩]
      rfl
    rw [gate_counting (w, held) hrole, committed, hnone, add_zero]
    rw [hnext, committed, hpending] at hafter
    exact hafter
  buys o ho hrole hbuy := by
    obtain ⟨f, rfl, hseen, hopen⟩ := filledOrder_eq ho
    obtain ⟨w, held⟩ := p
    obtain ⟨req, q⟩ := o
    have hv := (step_fill_known hseen hopen).1
    have hafter := h req.symbol
    have hnext : (heldStep (w, held) (.fill f)).1 =
        ((step w (.fill f)).1, heldAfter held req) := by
      simp only [heldStep, Option.mem_def.mp ho]
    rw [gate_counting_asEntry]
    rw [hnext, committed, exposure_fill_buy hv hopen hrole hbuy,
      pendingNotional_congr hv.stage hv.portfolioValueUsd, maxAllowed, hv.portfolioValueUsd,
      hv.maxPositionPct, add_right_comm] at hafter
    exact hafter

/-! ### Runs -/

theorem within_new (strategyName : String) (pct portfolio : ℚ≥0) (limit : ℚ) :
    Within (new strategyName pct portfolio limit, fun _ => 0) := by
  intro symbol
  show 0 * portfolio + 0 + 0 ≤ pct * portfolio
  rw [zero_mul, add_zero, add_zero]
  exact zero_le

theorem covers_new (strategyName : String) (pct portfolio : ℚ≥0) (limit : ℚ) :
    Covers (new strategyName pct portfolio limit) := fun _ => zero_le

theorem good_of_fits {p : Holding} (hwithin : Within p) (hcovers : Covers p.1) {is : List Input}
    (h : Along heldStep Fits p is) : Along heldStep Good p is := by
  refine along_of_invariant (I := fun p => Within p ∧ Covers p.1) (fun p i hp hfits => ?_) is
    ⟨hwithin, hcovers⟩ h
  have hnext := within_step hp.1 hfits
  exact ⟨⟨hnext.bounded, (freesExactly_iff hp.2).mpr hfits.sells⟩, hnext, covers_step hp.2⟩

theorem fits_of_quiet {p : Holding} (hadmitted : admittedEntry p.1 i = none)
    (hfilled : filledOrder p.1 i = none) : Fits p i := by
  constructor
  · rw [hadmitted]
    exact fun _ h => absurd h (Option.not_mem_none _)
  · rw [hfilled]
    exact fun _ h => absurd h (Option.not_mem_none _)
  · rw [hfilled]
    exact fun _ h => absurd h (Option.not_mem_none _)

theorem fits_accepts (p : Holding) (id : String) : Along heldStep Fits p (accepts id) :=
  ⟨fits_of_quiet rfl rfl, fits_of_quiet rfl rfl, trivial⟩

/-- A run that is good, also when the exchange accepts what is being placed, fits. -/
theorem fits_of_good {is : List Input} : ∀ {p : Holding}, Covers p.1 → PersistsNew p.1 →
    Along heldStep GivesNewId p is →
    (∀ pre, pre <+: is → ∀ id, Along heldStep Good p (pre ++ accepts id)) →
    Along heldStep Fits p is := by
  induction is with
  | nil => exact fun _ _ _ _ => trivial
  | cons i is ih =>
      intro p hcovers hnew hgives h
      have hnew' := persistsNew_step hnew hgives.1
      have hfirst : ∀ id, Along heldStep Good p (i :: accepts id) := fun id =>
        h [i] ((List.prefix_cons_inj i).mpr List.nil_prefix) id
      have hwithin : Within (heldStep p i).1 := by
        refine within_of_accepts hnew' (hfirst "").1.1 fun id => ?_
        exact (hfirst id).2.2.1.1
      refine ⟨fits_of_within hcovers hwithin (hfirst "").1.2, ?_⟩
      refine ih (covers_step hcovers) hnew' hgives.2 fun pre hpre id => ?_
      exact (h (i :: pre) ((List.prefix_cons_inj i).mpr hpre) id).2

/-- An order for half of what a position may take. -/
def quarterOrder (role : OrderRole) (side : OrderSide) : OrderRequest :=
  { tenthOrder "MACrossBot" role side with size := 1 / 4 }

/-- An order from the queue to its entry into the open orders. -/
def enter (id : String) (req : OrderRequest) : List Input :=
  [.post req, .check false, .take, .response (.returned ⟨id, "", .placed, 0⟩), .written]

def filled (id : String) (side : OrderSide) : List Input :=
  [.fill ⟨id, "bybit", "BTCUSDT", side, 100, 5, 0, 0⟩]

end MagnumOpus.Bot.OrderQueueWorker
