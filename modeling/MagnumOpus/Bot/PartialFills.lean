import MagnumOpus.Bot.FillBooking
import MagnumOpus.Bot.Positions
import MagnumOpus.Bot.PrivateFeeds

/-! # Orders that are filled in parts

An order worker behind the private feed of its exchange.  The feed hands on the first fill event of
each order, from whichever path, and drops all later ones; the worker closes an order with the first
fill that it handles.

So the orders of a run are accounted for (`Accounted`) exactly when every order is closed by a whole
report, and by no other (`Accountable`).  An update of a partial fill closes its order too early,
and a message of a single execution books only that one. -/

namespace MagnumOpus.Bot

open EventMachine KeyedSum OrderQueueWorker

/-! ### The desk -/

/-- A worker behind a private feed. -/
structure Desk where
  worker : OrderQueueWorker
  /-- The ids of the fill events that the feed has handed on. -/
  seenFillIds : List String
  /-- The executions that have been reported. -/
  revealed : List (String × ℕ)
  /-- The ids of the orders that have been entered. -/
  entered : List String
  /-- By how much the fills of an order have moved the position. -/
  moved : String → ℚ
  /-- By how much they have moved what was paid for it. -/
  spent : String → ℚ

namespace Desk

variable {book : String → ExecutedOrder}

def opened (w : OrderQueueWorker) : Desk where
  worker := w
  seenFillIds := []
  revealed := []
  entered := []
  moved := fun _ => 0
  spent := fun _ => 0

inductive Event (book : String → ExecutedOrder) where
  | report (r : Report book)
  /-- Anything but a fill. -/
  | other (i : Input)

/-- The feed hands on a fill event, unless it has done so before (`_handle_ws_fill` and
`_run_rest_fallback`). -/
def deliver (d : Desk) (f : OrderFilled) : Desk × List OrderEffect :=
  if f.orderId ∈ d.seenFillIds then (d, [])
  else
    let next := d.worker.step (.fill f)
    ({ d with
       worker := next.1
       seenFillIds := f.orderId :: d.seenFillIds
       moved := Function.update d.moved f.orderId
         (d.moved f.orderId + (next.1.positionQty f.symbol - d.worker.positionQty f.symbol))
       spent := Function.update d.spent f.orderId
         (d.spent f.orderId + (next.1.positionCost f.symbol - d.worker.positionCost f.symbol)) },
      next.2)

/-- A report is known to have come in. -/
def reveal (d : Desk) (r : Report book) : Desk :=
  { d with revealed := r.reveals.map (fun k => (r.orderId, k)) ++ d.revealed }

def step : Step Desk (Event book) OrderEffect := fun d e =>
  match e with
  | .report r =>
      match r.fillOf with
      | some f => (d.reveal r).deliver f
      | none => (d.reveal r, [])
  | .other i =>
      match i with
      | .fill _ => (d, [])
      | i =>
          ({ d with
             worker := (d.worker.step i).1
             entered := d.entered ++ OrderQueueWorker.entered d.worker i },
            (d.worker.step i).2)

/-! ### What is accounted for -/

/-- All executions of the order have been reported. -/
def Complete (book : String → ExecutedOrder) (d : Desk) (id : String) : Prop :=
  ∀ k < (book id).executions.length, (id, k) ∈ d.revealed

/-- What an order adds to a position. -/
def signedSize (o : ExecutedOrder) : ℚ :=
  match o.side with
  | .buy => totalSize o.executions
  | .sell => -totalSize o.executions

/-- An order stays open until it is filled completely; then it has moved the position by all that
was executed, at the volume-weighted price. -/
structure Accounted (book : String → ExecutedOrder) (d : Desk) : Prop where
  stays_open : ∀ id ∈ d.entered, ¬ Complete book d id → id ∈ d.worker.openOrders
  quantity : ∀ id ∈ d.entered, Complete book d id → d.moved id = signedSize (book id)
  cost : ∀ id ∈ d.entered, Complete book d id → (book id).side = .buy →
    d.spent id = avgPrice (book id).executions * d.moved id

/-- The feed makes a fill event of the report, and has made none of its order before. -/
def HandsOn (d : Desk) (r : Report book) : Prop :=
  r.fillOf ≠ none ∧ r.orderId ∉ d.seenFillIds

/-- The report is whole, and a sell order sells no more than is held. -/
def Closes (d : Desk) (r : Report book) : Prop :=
  r.Whole ∧ ((book r.orderId).side = .sell →
    totalSize (book r.orderId).executions ≤ d.worker.positionQty (book r.orderId).symbol)

/-- An incomplete open order is closed by a whole report, and a report that does not reach the
worker leaves it incomplete; an order whose executions have all been reported is not entered. -/
def Accountable (d : Desk) : Event book → Prop
  | .report r =>
      r.orderId ∈ d.worker.openOrders → ¬ Complete book d r.orderId →
        (HandsOn d r → Closes d r) ∧ (¬ HandsOn d r → ¬ Complete book (d.reveal r) r.orderId)
  | .other i =>
      ∀ req p, Inserts d.worker i req p → Complete book d p.orderId → p.orderId ∈ d.entered

/-! ### The invariant -/

/-- Nothing has been booked of an open order. -/
structure Pending (book : String → ExecutedOrder) (d : Desk) (id : String) : Prop where
  isOpen : id ∈ d.worker.openOrders
  incomplete : ¬ Complete book d id
  moved : d.moved id = 0
  spent : d.spent id = 0

/-- All of an order has been booked. -/
structure Booked (book : String → ExecutedOrder) (d : Desk) (id : String) : Prop where
  complete : Complete book d id
  seen : id ∈ d.seenFillIds
  moved : d.moved id = signedSize (book id)
  spent : (book id).side = .buy → d.spent id = totalCost (book id).executions

structure Kept (book : String → ExecutedOrder) (d : Desk) : Prop where
  entered_of_open : ∀ id ∈ d.worker.openOrders, id ∈ d.entered
  entered : ∀ id ∈ d.entered, Pending book d id ∨ Booked book d id
  unentered : ∀ id, id ∉ d.entered → d.moved id = 0 ∧ d.spent id = 0
  seen_of_seen : ∀ id ∈ d.worker.seenFillIds, id ∈ d.seenFillIds
  nonneg : ∀ symbol, 0 ≤ d.worker.positionQty symbol

variable {d : Desk}

theorem Kept.pending_of_not_complete (h : Kept book d) {id : String} (hid : id ∈ d.entered)
    (hc : ¬ Complete book d id) : Pending book d id :=
  (h.entered id hid).resolve_right fun hbooked => hc hbooked.complete

theorem Kept.booked_of_complete (h : Kept book d) {id : String} (hid : id ∈ d.entered)
    (hc : Complete book d id) : Booked book d id :=
  (h.entered id hid).resolve_left fun hpending => hpending.incomplete hc

theorem Kept.accounted (h : Kept book d) : Accounted book d := by
  refine ⟨fun id hid hc => (h.pending_of_not_complete hid hc).isOpen,
    fun id hid hc => (h.booked_of_complete hid hc).moved, fun id hid hc hbuy => ?_⟩
  have hbooked := h.booked_of_complete hid hc
  have hmoved := hbooked.moved
  rw [signedSize, hbuy] at hmoved
  rw [hbooked.spent hbuy, hmoved, avgPrice_mul_totalSize (book id).executions_ne_nil]

theorem signedSize_ne_zero (o : ExecutedOrder) : signedSize o ≠ 0 := by
  have hpos := totalSize_pos o.executions_ne_nil
  unfold signedSize
  cases o.side with
  | buy => exact hpos.ne'
  | sell => exact neg_ne_zero.mpr hpos.ne'

/-! ### Reports -/

theorem mem_reveal {r : Report book} {id : String} {k : ℕ} :
    (id, k) ∈ (d.reveal r).revealed ↔ (id = r.orderId ∧ k ∈ r.reveals) ∨ (id, k) ∈ d.revealed := by
  rw [reveal, List.mem_append, List.mem_map]
  refine or_congr_left ⟨?_, ?_⟩
  · rintro ⟨j, hj, heq⟩
    cases heq
    exact ⟨rfl, hj⟩
  · rintro ⟨rfl, hk⟩
    exact ⟨k, hk, rfl⟩

theorem Complete.reveal {id : String} (h : Complete book d id) (r : Report book) :
    Complete book (d.reveal r) id := fun k hk => mem_reveal.mpr (.inr (h k hk))

theorem complete_reveal_of_ne {r : Report book} {id : String} (hne : id ≠ r.orderId) :
    Complete book (d.reveal r) id ↔ Complete book d id := by
  refine ⟨fun h k hk => ?_, fun h => h.reveal r⟩
  rcases mem_reveal.mp (h k hk) with ⟨heq, -⟩ | hk
  · exact absurd heq hne
  · exact hk

theorem Pending.reveal {id : String} (h : Pending book d id) {r : Report book}
    (hc : ¬ Complete book (d.reveal r) id) : Pending book (d.reveal r) id :=
  ⟨h.isOpen, hc, h.moved, h.spent⟩

theorem Booked.reveal {id : String} (h : Booked book d id) (r : Report book) :
    Booked book (d.reveal r) id := ⟨h.complete.reveal r, h.seen, h.moved, h.spent⟩

theorem Kept.reveal (h : Kept book d) {r : Report book}
    (hr : Pending book d r.orderId → ¬ Complete book (d.reveal r) r.orderId) :
    Kept book (d.reveal r) where
  entered_of_open := h.entered_of_open
  entered id hid := by
    rcases h.entered id hid with hpending | hbooked
    · refine .inl (hpending.reveal ?_)
      by_cases hne : id = r.orderId
      · rw [hne] at hpending ⊢
        exact hr hpending
      · rw [complete_reveal_of_ne hne]
        exact hpending.incomplete
    · exact .inr (hbooked.reveal r)
  unentered := h.unentered
  seen_of_seen := h.seen_of_seen
  nonneg := h.nonneg

theorem step_of_not_handsOn {r : Report book} (h : ¬ HandsOn d r) :
    (step d (.report r)).1 = d.reveal r := by
  simp only [step]
  cases hf : r.fillOf with
  | none => rfl
  | some f =>
      have hid : f.orderId = r.orderId := (Report.fillOf_eq hf).orderId
      have hne : r.fillOf ≠ none := by rw [hf]; exact Option.some_ne_none f
      have hseen : f.orderId ∈ (d.reveal r).seenFillIds := by
        rw [hid]
        by_contra hnot
        exact h ⟨hne, hnot⟩
      show ((d.reveal r).deliver f).1 = d.reveal r
      rw [deliver, if_pos hseen]

theorem step_of_handsOn {r : Report book} {f : OrderFilled} (hf : r.fillOf = some f)
    (hseen : r.orderId ∉ d.seenFillIds) :
    (step d (.report r)).1 =
      { d.reveal r with
        worker := (d.worker.step (.fill f)).1
        seenFillIds := r.orderId :: d.seenFillIds
        moved := Function.update d.moved r.orderId (d.moved r.orderId +
          ((d.worker.step (.fill f)).1.positionQty f.symbol - d.worker.positionQty f.symbol))
        spent := Function.update d.spent r.orderId (d.spent r.orderId +
          ((d.worker.step (.fill f)).1.positionCost f.symbol -
            d.worker.positionCost f.symbol)) } := by
  have hid : f.orderId = r.orderId := (Report.fillOf_eq hf).orderId
  have hseen' : f.orderId ∉ (d.reveal r).seenFillIds := by rw [hid]; exact hseen
  simp only [step, hf]
  rw [deliver, if_neg hseen', hid]
  rfl

theorem HandsOn.exists_fill {r : Report book} (h : HandsOn d r) :
    ∃ f, r.fillOf = some f ∧ f.orderId = r.orderId := by
  obtain ⟨f, hf⟩ := Option.ne_none_iff_exists'.mp h.1
  exact ⟨f, hf, (Report.fillOf_eq hf).orderId⟩

theorem mem_of_mem_remember_cons {ids : List String} {seen : List String} {id id' : String}
    (hsub : ∀ id ∈ seen, id ∈ ids) (h : id' ∈ remember seen id) : id' ∈ id :: ids := by
  rcases mem_of_mem_remember h with h | rfl
  · exact List.mem_cons_of_mem _ (hsub id' h)
  · exact List.mem_cons_self

/-- The fill of an order that is not open moves nothing. -/
theorem kept_unknown (h : Kept book d) {r : Report book} (hands : HandsOn d r)
    (hopen : r.orderId ∉ d.worker.openOrders) : Kept book (step d (.report r)).1 := by
  obtain ⟨f, hf, hid⟩ := hands.exists_fill
  have hworker : f.orderId ∉ d.worker.seenFillIds := fun hs =>
    hands.2 (hid ▸ h.seen_of_seen _ hs)
  have hlookup : d.worker.openOrders.lookup f.orderId = none := by
    rw [hid]
    exact AList.lookup_eq_none.mpr hopen
  have hreveal := h.reveal (r := r) fun hpending => absurd hpending.isOpen hopen
  rw [step_of_handsOn hf hands.2, step_fill_unknown hworker hlookup]
  have hzero : ∀ (g : String → ℚ) (x : ℚ),
      Function.update g r.orderId (g r.orderId + (x - x)) = g := by
    intro g x
    rw [sub_self, add_zero, Function.update_eq_self]
  have hmoved := hzero d.moved (d.worker.positionQty f.symbol)
  have hspent := hzero d.spent (d.worker.positionCost f.symbol)
  have hcost : ({ d.worker with seenFillIds := remember d.worker.seenFillIds f.orderId } :
      OrderQueueWorker).positionCost f.symbol = d.worker.positionCost f.symbol := rfl
  simp only [hcost, hmoved, hspent]
  refine ⟨h.entered_of_open, fun id hid' => ?_, h.unentered, fun id hid' => ?_, h.nonneg⟩
  · rcases hreveal.entered id hid' with hpending | hbooked
    · exact .inl ⟨hpending.isOpen, hpending.incomplete, hpending.moved, hpending.spent⟩
    · exact .inr ⟨hbooked.complete, List.mem_cons_of_mem _ hbooked.seen, hbooked.moved,
        hbooked.spent⟩
  · exact mem_of_mem_remember_cons h.seen_of_seen (hid ▸ hid')

/-- The fill event of a report adds all of the order to the position exactly when the report closes
it. -/
theorem fillChange_eq_iff {r : Report book} {f : OrderFilled} (hf : r.fillOf = some f) :
    fillChange d.worker f = signedSize (book r.orderId) ↔ Closes d r := by
  obtain ⟨-, hsymbol, hside⟩ := Report.fillOf_eq hf
  have hle : f.fillSize ≤ totalSize (book r.orderId).executions := Report.fillSize_le hf
  rw [Closes, Report.whole_iff_fillSize hf, fillChange, signedSize, hside, hsymbol]
  cases (book r.orderId).side with
  | buy =>
      constructor
      · intro heq
        exact ⟨heq.ge, fun hsell => by cases hsell⟩
      · intro h
        exact le_antisymm hle h.1
  | sell =>
      constructor
      · intro heq
        have hmin := neg_injective heq
        exact ⟨hmin.ge.trans (min_le_left _ _), fun _ => hmin.ge.trans (min_le_right _ _)⟩
      · rintro ⟨hsize, hheld⟩
        have hall := le_antisymm hle hsize
        show -_ = -_
        rw [hall, min_eq_left (hheld rfl)]

/-- An open order of which nothing has been booked: the worker books the fill event, and removes the
order. -/
structure Removed (d : Desk) (r : Report book) (f : OrderFilled) : Prop where
  openOrders : ∀ id, id ∈ (step d (.report r)).1.worker.openOrders ↔
    id ≠ r.orderId ∧ id ∈ d.worker.openOrders
  moved : (step d (.report r)).1.moved r.orderId = fillChange d.worker f
  spent : f.side = .buy → (step d (.report r)).1.spent r.orderId = f.fillPrice * f.fillSize
  others : ∀ id, id ≠ r.orderId → (step d (.report r)).1.moved id = d.moved id ∧
    (step d (.report r)).1.spent id = d.spent id
  seen : (step d (.report r)).1.seenFillIds = r.orderId :: d.seenFillIds
  worker_seen : (step d (.report r)).1.worker.seenFillIds =
    remember d.worker.seenFillIds r.orderId
  nonneg : ∀ symbol, 0 ≤ (step d (.report r)).1.worker.positionQty symbol

theorem removed_of_pending (h : Kept book d) {r : Report book} (hands : HandsOn d r)
    (hpending : Pending book d r.orderId) : ∃ f, r.fillOf = some f ∧ Removed d r f := by
  obtain ⟨f, hf, hid⟩ := hands.exists_fill
  have hworker : f.orderId ∉ d.worker.seenFillIds := fun hs =>
    hands.2 (hid ▸ h.seen_of_seen _ hs)
  obtain ⟨o, hlookup⟩ : ∃ o, d.worker.openOrders.lookup f.orderId = some o := by
    rw [hid]
    exact Option.isSome_iff_exists.mp (AList.lookup_isSome.mpr hpending.isOpen)
  have hsize : 0 < f.fillSize := Report.fillSize_pos hf
  have hfilled := (step_fill_known hworker hlookup).1
  have hother : ∀ (g : String → ℚ) (x : ℚ) (id : String), id ≠ r.orderId →
      Function.update g r.orderId x id = g id := fun g x id hne => Function.update_of_ne hne x g
  refine ⟨f, hf, ?_⟩
  have hstep := step_of_handsOn hf hands.2
  constructor
  · intro id
    rw [hstep]
    show id ∈ (d.worker.step (.fill f)).1.openOrders ↔ _
    rw [hfilled.openOrders, AList.mem_erase, hid]
  · rw [hstep]
    show Function.update d.moved r.orderId _ r.orderId = _
    rw [Function.update_self, hpending.moved, zero_add]
    exact positionQty_fill hworker hlookup
  · intro hbuy
    rw [hstep]
    show Function.update d.spent r.orderId _ r.orderId = _
    rw [Function.update_self, hpending.spent, zero_add]
    exact positionCost_fill hworker hlookup hbuy (h.nonneg f.symbol) hsize
  · intro id hne
    rw [hstep]
    exact ⟨hother _ _ id hne, hother _ _ id hne⟩
  · rw [hstep]
  · rw [hstep]
    show (d.worker.step (.fill f)).1.seenFillIds = _
    rw [hfilled.seenFillIds, hid]
  · intro symbol
    rw [hstep]
    show 0 ≤ (d.worker.step (.fill f)).1.positionQty symbol
    rw [(position_fill hworker hlookup).1]
    exact updatePosition_nonneg f.fillPrice h.nonneg hsize symbol

theorem kept_closed (h : Kept book d) {r : Report book} (hands : HandsOn d r)
    (hpending : Pending book d r.orderId) (hcloses : Closes d r) :
    Kept book (step d (.report r)).1 := by
  obtain ⟨f, hf, hremoved⟩ := removed_of_pending h hands hpending
  obtain ⟨f', hcomplete⟩ := Report.fillOf_of_whole hcloses.1
  cases hf.symm.trans hcomplete.fillOf
  have hside : f.side = (book r.orderId).side := (Report.fillOf_eq hf).side
  have hentered : (step d (.report r)).1.entered = d.entered := by
    rw [step_of_handsOn hf hands.2]
    rfl
  have hrevealed : ∀ id, Complete book (step d (.report r)).1 id ↔
      Complete book (d.reveal r) id := by
    intro id
    rw [step_of_handsOn hf hands.2]
    rfl
  refine ⟨fun id hid => ?_, fun id hid => ?_, fun id hid => ?_, fun id hid => ?_, hremoved.nonneg⟩
  · rw [hentered]
    exact h.entered_of_open id ((hremoved.openOrders id).mp hid).2
  · rw [hentered] at hid
    by_cases hne : id = r.orderId
    · subst hne
      refine .inr ⟨?_, ?_, ?_, fun hbuy => ?_⟩
      · rw [hrevealed]
        exact fun k hk => mem_reveal.mpr (.inl ⟨rfl, hcomplete.reveals k hk⟩)
      · rw [hremoved.seen]
        exact List.mem_cons_self
      · rw [hremoved.moved]
        exact (fillChange_eq_iff hf).mpr hcloses
      · rw [hremoved.spent (hside.trans hbuy)]
        exact hcomplete.cost
    · have hothers := hremoved.others id hne
      rcases h.entered id hid with hpending' | hbooked
      · refine .inl ⟨(hremoved.openOrders id).mpr ⟨hne, hpending'.isOpen⟩, ?_,
          hothers.1.trans hpending'.moved, hothers.2.trans hpending'.spent⟩
        rw [hrevealed, complete_reveal_of_ne hne]
        exact hpending'.incomplete
      · refine .inr ⟨?_, ?_, hothers.1.trans hbooked.moved,
          fun hbuy => hothers.2.trans (hbooked.spent hbuy)⟩
        · rw [hrevealed]
          exact hbooked.complete.reveal r
        · rw [hremoved.seen]
          exact List.mem_cons_of_mem _ hbooked.seen
  · rw [hentered] at hid
    have hne : id ≠ r.orderId := by
      rintro rfl
      exact hid (h.entered_of_open _ hpending.isOpen)
    exact ⟨((hremoved.others id hne).1).trans (h.unentered id hid).1,
      ((hremoved.others id hne).2).trans (h.unentered id hid).2⟩
  · rw [hremoved.worker_seen] at hid
    rw [hremoved.seen]
    exact mem_of_mem_remember_cons h.seen_of_seen hid

theorem kept_report (h : Kept book d) {r : Report book} (hr : Accountable d (.report r)) :
    Kept book (step d (.report r)).1 := by
  by_cases hands : HandsOn d r
  · by_cases hopen : r.orderId ∈ d.worker.openOrders
    · have hpending : Pending book d r.orderId := by
        refine (h.entered _ (h.entered_of_open _ hopen)).resolve_right fun hbooked => ?_
        exact hands.2 hbooked.seen
      exact kept_closed h hands hpending ((hr hopen hpending.incomplete).1 hands)
    · exact kept_unknown h hands hopen
  · rw [step_of_not_handsOn hands]
    exact h.reveal fun hpending => (hr hpending.isOpen hpending.incomplete).2 hands

/-- A report after which the orders are accounted for. -/
theorem accountable_of_accounted (h : Kept book d) {r : Report book}
    (hnext : Accounted book (step d (.report r)).1) : Accountable d (.report r) := by
  intro hopen hc
  have hentered := h.entered_of_open _ hopen
  have hpending := h.pending_of_not_complete hentered hc
  refine ⟨fun hands => ?_, fun hands hcomplete => ?_⟩
  · obtain ⟨f, hf, hremoved⟩ := removed_of_pending h hands hpending
    have hentered' : r.orderId ∈ (step d (.report r)).1.entered := by
      rw [step_of_handsOn hf hands.2]
      exact hentered
    -- The order is gone, so it has to be complete.
    have hcomplete : Complete book (step d (.report r)).1 r.orderId := by
      by_contra hc'
      exact ((hremoved.openOrders _).mp (hnext.stays_open _ hentered' hc')).1 rfl
    rw [← fillChange_eq_iff hf, ← hremoved.moved]
    exact hnext.quantity _ hentered' hcomplete
  · rw [step_of_not_handsOn hands] at hnext
    have hmoved : d.moved r.orderId = signedSize (book r.orderId) :=
      hnext.quantity r.orderId hentered hcomplete
    exact signedSize_ne_zero _ (hmoved.symm.trans hpending.moved)

/-! ### Other events -/

theorem step_other {i : Input} (h : ∀ f, i ≠ .fill f) :
    (step d (.other i : Event book)).1 =
      { d with
        worker := (d.worker.step i).1
        entered := d.entered ++ OrderQueueWorker.entered d.worker i } := by
  cases i with
  | fill f => exact absurd rfl (h f)
  | _ => rfl

theorem kept_insert (h : Kept book d) {req : OrderRequest} {p : PlacedOrder}
    (hnew : Complete book d p.orderId → p.orderId ∈ d.entered) :
    Kept book
      { d with worker := d.worker.insertOpen req p, entered := d.entered ++ [p.orderId] } := by
  have hmem : ∀ id, id ∈ (d.worker.insertOpen req p).openOrders ↔
      id = p.orderId ∨ id ∈ d.worker.openOrders := fun id => AList.mem_insert _
  have hold : ∀ id, Pending book d id ∨ Booked book d id →
      Pending book { d with worker := d.worker.insertOpen req p,
                            entered := d.entered ++ [p.orderId] } id ∨
        Booked book { d with worker := d.worker.insertOpen req p,
                             entered := d.entered ++ [p.orderId] } id := by
    rintro id (hpending | hbooked)
    · exact .inl ⟨(hmem id).mpr (.inr hpending.isOpen), hpending.incomplete, hpending.moved,
        hpending.spent⟩
    · exact .inr ⟨hbooked.complete, hbooked.seen, hbooked.moved, hbooked.spent⟩
  refine ⟨fun id hid => ?_, fun id hid => ?_, fun id hid => ?_, h.seen_of_seen, h.nonneg⟩
  · rcases (hmem id).mp hid with rfl | hid
    · exact List.mem_append_right _ (List.mem_singleton_self _)
    · exact List.mem_append_left _ (h.entered_of_open id hid)
  · by_cases hin : id ∈ d.entered
    · exact hold id (h.entered id hin)
    · have heq : id = p.orderId :=
        List.mem_singleton.mp ((List.mem_append.mp hid).resolve_left hin)
      have hzero := h.unentered id hin
      refine .inl ⟨(hmem id).mpr (.inl heq), fun hc => hin ?_, hzero.1, hzero.2⟩
      rw [heq] at hc ⊢
      exact hnew hc
  · exact h.unentered id fun hin => hid (List.mem_append_left _ hin)

theorem kept_other (h : Kept book d) {i : Input} (hi : Accountable d (.other i : Event book)) :
    Kept book (step d (.other i : Event book)).1 := by
  by_cases hfill : ∃ f, i = .fill f
  · obtain ⟨f, rfl⟩ := hfill
    exact h
  have hfill' : ∀ f, i ≠ .fill f := fun f hf => hfill ⟨f, hf⟩
  rw [step_other hfill']
  by_cases hins : ∃ req p, Inserts d.worker i req p
  · obtain ⟨req, p, hins⟩ := hins
    rw [step_insert hins, entered_of_inserts hins]
    exact kept_insert h (hi req p hins)
  · have hins' : ∀ req p, ¬ Inserts d.worker i req p := fun req p hx => hins ⟨req, p, hx⟩
    have hbooks := (step_keeps hins' hfill').books
    have hposition := position_step (w := d.worker) hfill'
    rw [entered_of_not_inserts hins', List.append_nil]
    refine ⟨fun id hid => ?_, fun id hid => ?_, h.unentered, fun id hid => ?_, fun symbol => ?_⟩
    · rw [hbooks.openOrders] at hid
      exact h.entered_of_open id hid
    · rcases h.entered id hid with hpending | hbooked
      · refine .inl ⟨?_, hpending.incomplete, hpending.moved, hpending.spent⟩
        rw [hbooks.openOrders]
        exact hpending.isOpen
      · exact .inr ⟨hbooked.complete, hbooked.seen, hbooked.moved, hbooked.spent⟩
    · rw [hbooks.seenFillIds] at hid
      exact h.seen_of_seen id hid
    · rw [hposition.1]
      exact h.nonneg symbol

/-- An order that is entered when all of it has been reported is never booked. -/
theorem accountable_of_entry (h : Kept book d) {i : Input}
    (hnext : Accounted book (step d (.other i : Event book)).1) :
    Accountable d (.other i : Event book) := by
  intro req p hins hc
  by_contra hin
  have hfill : ∀ f, i ≠ .fill f := by
    rintro f rfl
    cases hins.1
  rw [step_other hfill, entered_of_inserts hins] at hnext
  have hmoved : d.moved p.orderId = signedSize (book p.orderId) :=
    hnext.quantity p.orderId (List.mem_append_right _ (List.mem_singleton_self _)) hc
  exact signedSize_ne_zero _ (hmoved.symm.trans (h.unentered _ hin).1)

/-! ### Runs -/

theorem kept_opened (strategyName : String) (pct portfolio : ℚ≥0) (limit : ℚ) :
    Kept book (opened (new strategyName pct portfolio limit)) where
  entered_of_open id hid := absurd hid (AList.notMem_empty id)
  entered _ hid := absurd hid List.not_mem_nil
  unentered _ _ := ⟨rfl, rfl⟩
  seen_of_seen _ hid := absurd hid List.not_mem_nil
  nonneg _ := le_refl _

/-- **The orders of a run are accounted for at every point exactly when each is closed by a whole
report of an order that sells no more than is held, and by no other.** -/
theorem accounted_iff_accountable (strategyName : String) (pct portfolio : ℚ≥0) (limit : ℚ)
    (es : List (Event book)) :
    Along step (fun d e => Accounted book (step d e).1)
        (opened (new strategyName pct portfolio limit)) es ↔
      Along step Accountable (opened (new strategyName pct portfolio limit)) es := by
  refine along_iff_along (I := Kept book) (fun d e hkept => ?_) es
    (kept_opened strategyName pct portfolio limit)
  have hnext : Accountable d e → Kept book (step d e).1 := by
    cases e with
    | report r => exact kept_report hkept
    | other i => exact kept_other hkept
  refine ⟨⟨fun hacc => ?_, fun hok => (hnext hok).accounted⟩, hnext⟩
  cases e with
  | report r => exact accountable_of_accounted hkept hacc
  | other i => exact accountable_of_entry hkept hacc

/-! ### An order in two executions -/

/-- The order is for one unit, in two halves. -/
def twoHalves : ExecutedOrder where
  symbol := "BTCUSDT"
  side := .buy
  executions := [⟨100, 1 / 2, 0, 1, by decide +kernel⟩, ⟨100, 1 / 2, 0, 2, by decide +kernel⟩]
  executions_ne_nil := List.cons_ne_nil _ _

def firstHalf : Report fun _ => twoHalves := .bybitUpdate "o1" ⟨0, Nat.zero_lt_two⟩

/-- Bybit's update after the first execution closes the order. -/
theorem first_half_closes :
    ¬ Along step (fun d e => Accounted (fun _ => twoHalves) (step d e).1)
      (opened (new "MACrossBot" (1 / 2) 1000 0))
      (([.post entryOrder, .check false, .take, .response (.returned placedOrder), .written].map
        Event.other) ++ [.report firstHalf]) := by
  intro h
  have hlast := (along_append.mp h).2.1
  have hopen := hlast.stays_open "o1" (by decide +kernel) fun hc =>
    absurd (hc 1 Nat.one_lt_two) (by decide +kernel)
  revert hopen
  decide +kernel

end Desk

end MagnumOpus.Bot
