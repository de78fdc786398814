import MagnumOpus.Bot.OrderWorkerSteps

/-! # Booking the fills of placed orders

An order is entered into `openOrders` only after `place_order` has answered and its row has been
written.  Its fill may come in before that.

* **The purpose.** `Booked`: an order that has been entered and whose fill has been handled is not
  open, its fill has been applied to the position once, and nothing is reserved for it.
* **When it holds.** Exactly in the runs in which no order is entered after its fill
  (`booked_iff`): the fill of an order that is not open yet is remembered as handled and otherwise
  lost, so the order stays open for ever. -/

namespace MagnumOpus.Bot.OrderQueueWorker

open EventMachine KeyedSum

/-- What has happened to the orders of a worker, by their ids. -/
structure Tally where
  /-- Entered into `openOrders`. -/
  placed : List String
  /-- A fill event has been handled. -/
  filled : List String
  /-- A fill has been applied to the position. -/
  applied : List String

/-- The id of the order that a step enters. -/
def entered (w : OrderQueueWorker) (i : Input) : List String :=
  match i, w.stage with
  | .written, .persisting _ p => [p.orderId]
  | _, _ => []

/-- The id of the fill event that comes in. -/
def arrived : Input → List String
  | .fill f => [f.orderId]
  | _ => []

/-- A step with the tally. -/
def talliedStep : Step (OrderQueueWorker × Tally) Input OrderEffect := fun p i =>
  (((step p.1 i).1,
    { placed := p.2.placed ++ entered p.1 i
      filled := p.2.filled ++ arrived i
      applied := p.2.applied ++ filledIds (step p.1 i).2 }), (step p.1 i).2)

/-- An order that has been entered and whose fill has been handled is not open, its fill has been
applied once, and only the open orders reserve notional. -/
structure Booked (p : OrderQueueWorker × Tally) : Prop where
  closed : ∀ id ∈ p.2.placed, id ∈ p.2.filled → id ∉ p.1.openOrders
  once : ∀ id ∈ p.2.placed, id ∈ p.2.filled → p.2.applied.count id = 1
  released : p.1.Reserves

/-- The exchange gives a placed order an id that has not been used. -/
def FreshId (p : OrderQueueWorker × Tally) (i : Input) : Prop :=
  ∀ q, ReturnsPlaced i q → q.orderId ∉ p.2.placed

/-- An order is entered before its fill is handled. -/
def InTime (p : OrderQueueWorker × Tally) (i : Input) : Prop :=
  ∀ req q, Inserts p.1 i req q → q.orderId ∉ p.2.filled

/-! ### The invariant -/

/-- What is known of a worker whose orders are all entered in time. -/
structure Tracked (p : OrderQueueWorker × Tally) : Prop where
  placed_of_open : ∀ id ∈ p.1.openOrders, id ∈ p.2.placed
  open_of_placed : ∀ id ∈ p.2.placed, id ∉ p.2.filled → id ∈ p.1.openOrders
  closed : ∀ id ∈ p.2.filled, id ∉ p.1.openOrders
  once : ∀ id ∈ p.2.placed, id ∈ p.2.filled → p.2.applied.count id = 1
  filled_of_applied : ∀ id ∈ p.2.applied, id ∈ p.2.filled
  filled_of_seen : ∀ id ∈ p.1.seenFillIds, id ∈ p.2.filled
  new : ∀ req q, p.1.stage = .persisting req q → q.orderId ∉ p.2.placed
  reserves : p.1.Reserves

theorem Tracked.booked {p : OrderQueueWorker × Tally} (h : Tracked p) : Booked p :=
  ⟨fun id _ hf => h.closed id hf, h.once, h.reserves⟩

variable {w : OrderQueueWorker} {t : Tally} {i : Input}

theorem entered_of_inserts {req : OrderRequest} {q : PlacedOrder} (h : Inserts w i req q) :
    entered w i = [q.orderId] := by
  obtain ⟨rfl, hs⟩ := h
  simp only [entered, hs]

theorem entered_of_not_inserts (h : ∀ req q, ¬ Inserts w i req q) : entered w i = [] := by
  unfold entered
  split
  · next req q hs => exact absurd ⟨rfl, hs⟩ (h req q)
  · rfl

theorem arrived_of_not_fill (h : ∀ f, i ≠ .fill f) : arrived i = [] := by
  cases i with
  | fill f => exact absurd rfl (h f)
  | _ => rfl

theorem tracked_insert {req : OrderRequest} {q : PlacedOrder} (h : Tracked (w, t))
    (hins : Inserts w i req q) (htime : InTime (w, t) i) : Tracked (talliedStep (w, t) i).1 := by
  have hnew : q.orderId ∉ t.placed := h.new req q hins.2
  have hnot : q.orderId ∉ t.filled := htime req q hins
  have harr : arrived i = [] := by rw [hins.1]; rfl
  have hmem : ∀ id, id ∈ (w.insertOpen req q).openOrders ↔ id = q.orderId ∨ id ∈ w.openOrders :=
    fun id => AList.mem_insert _
  simp only [talliedStep, step_insert hins, entered_of_inserts hins, harr, filledIds,
    List.filterMap_nil, List.append_nil]
  refine ⟨?_, ?_, ?_, ?_, h.filled_of_applied, h.filled_of_seen, ?_, ?_⟩
  · intro id hid
    rcases (hmem id).mp hid with rfl | hid
    · exact List.mem_append_right _ (List.mem_singleton_self _)
    · exact List.mem_append_left _ (h.placed_of_open id hid)
  · intro id hid hf
    rw [hmem]
    rcases List.mem_append.mp hid with hid | hid
    · exact .inr (h.open_of_placed id hid hf)
    · exact .inl (List.mem_singleton.mp hid)
  · intro id hf hid
    rcases (hmem id).mp hid with rfl | hid
    · exact hnot hf
    · exact h.closed id hf hid
  · intro id hid hf
    rcases List.mem_append.mp hid with hid | hid
    · exact h.once id hid hf
    · exact absurd (List.mem_singleton.mp hid ▸ hf) hnot
  · intro req' q' hs
    cases hs
  · exact h.reserves.insertOpen req fun hopen => hnew (h.placed_of_open _ hopen)

theorem tallied_fill (f : OrderFilled) :
    (talliedStep (w, t) (.fill f)).1 = ((step w (.fill f)).1,
      { t with
        filled := t.filled ++ [f.orderId]
        applied := t.applied ++ filledIds (step w (.fill f)).2 }) := by
  have hent : entered w (.fill f) = [] := rfl
  simp only [talliedStep, hent, arrived, List.append_nil]

theorem mem_filled_append {id id' : String} :
    id' ∈ t.filled ++ [id] ↔ id' ∈ t.filled ∨ id' = id := by
  rw [List.mem_append, List.mem_singleton]

theorem tracked_fill_seen {f : OrderFilled} (h : Tracked (w, t))
    (hseen : f.orderId ∈ w.seenFillIds) : Tracked (talliedStep (w, t) (.fill f)).1 := by
  have hall : ∀ id, id ∈ t.filled ++ [f.orderId] ↔ id ∈ t.filled := by
    intro id
    rw [mem_filled_append]
    exact ⟨fun hid => hid.elim (fun hid => hid) fun hid => hid ▸ h.filled_of_seen _ hseen, .inl⟩
  rw [tallied_fill, step_fill_seen hseen]
  simp only [filledIds, List.filterMap_nil, List.append_nil]
  refine ⟨h.placed_of_open, ?_, ?_, ?_, ?_, ?_, h.new, h.reserves⟩ <;> simp only [hall]
  · exact h.open_of_placed
  · exact h.closed
  · exact h.once
  · exact h.filled_of_applied
  · exact h.filled_of_seen

theorem filled_of_remember (h : Tracked (w, t)) (f : OrderFilled) :
    ∀ id ∈ remember w.seenFillIds f.orderId, id ∈ t.filled ++ [f.orderId] := by
  intro id hid
  rw [mem_filled_append]
  exact (mem_of_mem_remember hid).imp (h.filled_of_seen id) fun hx => hx

theorem tracked_fill_unknown {f : OrderFilled} (h : Tracked (w, t))
    (hseen : f.orderId ∉ w.seenFillIds) (hopen : w.openOrders.lookup f.orderId = none) :
    Tracked (talliedStep (w, t) (.fill f)).1 := by
  have hnot : f.orderId ∉ w.openOrders := AList.lookup_eq_none.mp hopen
  have hseen' := filled_of_remember h f
  rw [tallied_fill, step_fill_unknown hseen hopen]
  simp only [filledIds, List.filterMap_nil, List.append_nil]
  refine ⟨h.placed_of_open, ?_, ?_, ?_, ?_, hseen', h.new, h.reserves⟩
  · intro id hid hf
    exact h.open_of_placed id hid fun hid' => hf (mem_filled_append.mpr (.inl hid'))
  · intro id hf
    rcases mem_filled_append.mp hf with hf | rfl
    · exact h.closed id hf
    · exact hnot
  · intro id hid hf
    rcases mem_filled_append.mp hf with hf | rfl
    · exact h.once id hid hf
    · -- An order that has been entered and not been filled would be open.
      by_cases hf' : f.orderId ∈ t.filled
      · exact h.once _ hid hf'
      · exact absurd (h.open_of_placed _ hid hf') hnot
  · exact fun id hid => mem_filled_append.mpr (.inl (h.filled_of_applied id hid))

theorem tracked_fill_known {f : OrderFilled} {req : OrderRequest} {q : PlacedOrder}
    (h : Tracked (w, t)) (hseen : f.orderId ∉ w.seenFillIds)
    (hopen : w.openOrders.lookup f.orderId = some (req, q)) :
    Tracked (talliedStep (w, t) (.fill f)).1 := by
  obtain ⟨hbook, happ⟩ := step_fill_known hseen hopen
  have hin : f.orderId ∈ w.openOrders := AList.lookup_isSome.mp (by rw [hopen]; rfl)
  have hnot : f.orderId ∉ t.filled := fun hf => h.closed _ hf hin
  have hzero : t.applied.count f.orderId = 0 :=
    List.count_eq_zero.mpr fun ha => hnot (h.filled_of_applied _ ha)
  have hmem : ∀ id, id ∈ (step w (.fill f)).1.openOrders ↔ id ≠ f.orderId ∧ id ∈ w.openOrders := by
    intro id
    rw [hbook.openOrders]
    exact AList.mem_erase
  rw [tallied_fill, happ]
  refine ⟨?_, ?_, ?_, ?_, ?_, ?_, ?_, h.reserves.filled hbook hopen⟩
  · exact fun id hid => h.placed_of_open id ((hmem id).mp hid).2
  · intro id hid hf
    rw [mem_filled_append, not_or] at hf
    exact (hmem id).mpr ⟨hf.2, h.open_of_placed id hid hf.1⟩
  · intro id hf hid
    obtain ⟨hne, hid⟩ := (hmem id).mp hid
    rcases mem_filled_append.mp hf with hf | hf
    · exact h.closed id hf hid
    · exact hne hf
  · intro id hid hf
    rw [List.count_append]
    by_cases hid' : id = f.orderId
    · subst hid'
      rw [hzero, List.count_singleton_self]
    · have hf' : id ∈ t.filled := (mem_filled_append.mp hf).resolve_right hid'
      rw [h.once id hid hf', List.count_singleton, if_neg (by simpa using Ne.symm hid')]
  · intro id hid
    rw [mem_filled_append]
    exact (List.mem_append.mp hid).imp (h.filled_of_applied id) List.mem_singleton.mp
  · rw [hbook.seenFillIds]
    exact filled_of_remember h f
  · rw [hbook.stage]
    exact h.new

theorem tracked_fill (f : OrderFilled) (h : Tracked (w, t)) :
    Tracked (talliedStep (w, t) (.fill f)).1 := by
  by_cases hseen : f.orderId ∈ w.seenFillIds
  · exact tracked_fill_seen h hseen
  · cases hopen : w.openOrders.lookup f.orderId with
    | none => exact tracked_fill_unknown h hseen hopen
    | some o => exact tracked_fill_known h hseen hopen

/-- **One step** in which an order is entered in time, under an id that has not been used. -/
theorem tracked_step {p : OrderQueueWorker × Tally} (h : Tracked p) (hfresh : FreshId p i)
    (htime : InTime p i) : Tracked (talliedStep p i).1 := by
  obtain ⟨w, t⟩ := p
  by_cases hins : ∃ req q, Inserts w i req q
  · obtain ⟨req, q, hins⟩ := hins
    exact tracked_insert h hins htime
  · have hins' : ∀ req q, ¬ Inserts w i req q := fun req q hx => hins ⟨req, q, hx⟩
    by_cases hfill : ∃ f, i = .fill f
    · obtain ⟨f, rfl⟩ := hfill
      exact tracked_fill f h
    · have hfill' : ∀ f, i ≠ .fill f := fun f hf => hfill ⟨f, hf⟩
      have hk := step_keeps hins' hfill'
      simp only [talliedStep, entered_of_not_inserts hins', arrived_of_not_fill hfill',
        hk.none_filled, List.append_nil]
      refine ⟨?_, ?_, ?_, h.once, h.filled_of_applied, ?_, ?_, h.reserves.sameBooks hk.books⟩
      · rw [hk.books.openOrders]
        exact h.placed_of_open
      · rw [hk.books.openOrders]
        exact h.open_of_placed
      · rw [hk.books.openOrders]
        exact h.closed
      · rw [hk.books.seenFillIds]
        exact h.filled_of_seen
      · intro req q hs
        rcases hk.persisting req q hs with hs | ⟨-, hret⟩
        · exact h.new req q hs
        · exact hfresh q hret

/-! ### Runs -/

/-- A worker that has not done anything yet. -/
def freshTally (w : OrderQueueWorker) : OrderQueueWorker × Tally := (w, ⟨[], [], []⟩)

theorem tracked_new (strategyName : String) (pct portfolio : ℚ≥0) (limit : ℚ) :
    Tracked (freshTally (new strategyName pct portfolio limit)) := by
  refine ⟨?_, ?_, ?_, ?_, ?_, ?_, ?_, fun symbol => rfl⟩
  · intro id hid
    exact absurd hid (AList.notMem_empty id)
  · intro id hid
    cases hid
  · intro id hid
    cases hid
  · intro id hid
    cases hid
  · intro id hid
    cases hid
  · intro id hid
    cases hid
  · intro req q hs
    cases hs

/-- An order that is entered after its fill stays open. -/
theorem inTime_of_booked {p : OrderQueueWorker × Tally} (h : Booked (talliedStep p i).1) :
    InTime p i := by
  intro req q hins hf
  have hplaced : q.orderId ∈ (talliedStep p i).1.2.placed := by
    show q.orderId ∈ p.2.placed ++ entered p.1 i
    rw [entered_of_inserts hins]
    exact List.mem_append_right _ (List.mem_singleton_self _)
  have hfilled : q.orderId ∈ (talliedStep p i).1.2.filled := List.mem_append_left _ hf
  refine h.closed q.orderId hplaced hfilled ?_
  show q.orderId ∈ (step p.1 i).1.openOrders
  rw [step_insert hins]
  exact (AList.mem_insert _).mpr (.inl rfl)

/-- **Every order that has been entered and filled is booked, at every point of a run, exactly when
in no step an order is entered after its fill has been handled.** -/
theorem booked_iff {strategyName : String} {pct portfolio : ℚ≥0} {limit : ℚ} {is : List Input}
    (hfresh : Along talliedStep FreshId (freshTally (new strategyName pct portfolio limit)) is) :
    Along talliedStep (fun p i => Booked (talliedStep p i).1)
        (freshTally (new strategyName pct portfolio limit)) is ↔
      Along talliedStep InTime (freshTally (new strategyName pct portfolio limit)) is := by
  constructor
  · exact Along.imp (fun _ _ h => inTime_of_booked h) is
  · intro htime
    refine along_of_invariant (I := Tracked) ?_ is (tracked_new strategyName pct portfolio limit)
      (hfresh.and htime)
    rintro p i h ⟨hfresh, htime⟩
    have hnext := tracked_step h hfresh htime
    exact ⟨hnext.booked, hnext⟩

/-! ### Two runs -/

def entryOrder : OrderRequest := tenthOrder "MACrossBot" .entry .buy

def placedOrder : PlacedOrder := ⟨"o1", "", .placed, 0⟩

def fillEvent : OrderFilled := ⟨"o1", "bybit", "BTCUSDT", .buy, 100, 1, 0, 0⟩

/-- The order up to the answer of the exchange. -/
def placing : List Input :=
  [.post entryOrder, .check false, .take, .response (.returned placedOrder)]

theorem booked_in_time :
    Along talliedStep (fun p i => Booked (talliedStep p i).1)
      (freshTally (halfOfThousand "MACrossBot")) (placing ++ [.written, .fill fillEvent]) := by
  refine (booked_iff ?_).mpr ?_
  · refine ⟨?_, ?_, ?_, ?_, ?_, ?_, trivial⟩ <;> rintro q ⟨hq, -⟩ <;> cases hq
    exact List.not_mem_nil
  · refine ⟨?_, ?_, ?_, ?_, ?_, ?_, trivial⟩ <;> rintro req q ⟨hi, -⟩ <;> cases hi
    exact List.not_mem_nil

/-- The fill comes in while the row is being written: the order stays open, the position does not
move and the notional stays reserved. -/
theorem fill_before_entry_is_lost :
    Along talliedStep FreshId (freshTally (halfOfThousand "MACrossBot"))
      (placing ++ [.fill fillEvent, .written]) ∧
    ¬ Along talliedStep (fun p i => Booked (talliedStep p i).1)
      (freshTally (halfOfThousand "MACrossBot")) (placing ++ [.fill fillEvent, .written]) := by
  refine ⟨⟨?_, ?_, ?_, ?_, ?_, ?_, trivial⟩, fun h => ?_⟩
  any_goals
    rintro q ⟨hq, -⟩
    cases hq
  · exact List.not_mem_nil
  · obtain ⟨-, -, -, -, -, hbooked, -⟩ := h
    exact hbooked.closed "o1" (by decide +kernel) (by decide +kernel) (by decide +kernel)

end MagnumOpus.Bot.OrderQueueWorker
