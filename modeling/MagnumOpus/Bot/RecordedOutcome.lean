import MagnumOpus.Bot.OrderWorkerSteps
import MagnumOpus.Bot.RestRetry

/-! # Recorded outcomes

An order worker and the exchange that executes its orders.  `place_order` is one event, with all
that happens to its attempts; the worker then records `placed` or `failed`
(`_place_and_persist`, `order_worker.py`).

The records are true (`TrueRecords`) when no order recorded as failed has been executed, and every
executed order that is not filled is open in the worker, or about to be.  They are true at every
step of a run exactly when the answers get through: of a call with a new id, that to the first
attempt that the exchange accepts (`FirstHeard`). -/

namespace MagnumOpus.Bot

open EventMachine

structure Market where
  worker : OrderQueueWorker
  executed : Executed
  /-- The ids of the executed orders that have been filled. -/
  filled : List String
  /-- What was recorded last for a client order id. -/
  recorded : String → Option String

namespace Market

/-- No order has been executed. -/
def opened (w : OrderQueueWorker) : Market where
  worker := w
  executed := []
  filled := []
  recorded := fun _ => none

inductive Event where
  /-- The call of `place_order`, with the fate of its attempts. -/
  | call (attempts : Fin maxAttempts → Attempt) (uuid : String) (tsExchange : ℤ)
  /-- The exchange fills an order and reports it. -/
  | fill (f : OrderFilled)
  | other (i : Input)

/-- What is neither an answer nor a fill; the worker's task is not cancelled. -/
def Ordinary : Input → Bool
  | .response _ => false
  | .fill _ => false
  | .cancel => false
  | _ => true

def statusOf : List OrderEffect → Option String
  | .writeOrderEvent row :: _ => some row.status
  | _ => none

/-- The status of the row that is written for an order, if there is one. -/
def record (recorded : String → Option String) (id : String) (effects : List OrderEffect) :
    String → Option String :=
  match statusOf effects with
  | some status => Function.update recorded id (some status)
  | none => recorded

/-- The worker gets the answer to the order that it is placing. -/
def call (m : Market) (req : OrderRequest) (attempts : Fin maxAttempts → Attempt) (uuid : String)
    (tsExchange : ℤ) : Market × List OrderEffect :=
  let answer := placeOrder m.executed uuid req tsExchange attempts
  let next := m.worker.step (.response answer.2)
  ({ m with
     worker := next.1
     executed := answer.1
     recorded := record m.recorded (RestClient.linkId uuid req) next.2 }, next.2)

def step : Step Market Event OrderEffect := fun m e =>
  match e with
  | .call attempts uuid tsExchange =>
      match m.worker.stage with
      | .placing req => m.call req attempts uuid tsExchange
      | _ => (m, [])
  | .fill f =>
      if f.orderId ∈ m.executed.orderIds then
        ({ m with worker := (m.worker.step (.fill f)).1, filled := f.orderId :: m.filled },
          (m.worker.step (.fill f)).2)
      else (m, [])
  | .other i =>
      if Ordinary i then ({ m with worker := (m.worker.step i).1 }, (m.worker.step i).2)
      else (m, [])

/-- The order is in `openOrders`, or its row is being written. -/
def KnownOpen (w : OrderQueueWorker) (orderId : String) : Prop :=
  orderId ∈ w.openOrders ∨ ∃ req p, w.stage = .persisting req p ∧ p.orderId = orderId

structure TrueRecords (m : Market) : Prop where
  failed : ∀ id, m.recorded id = some "failed" → id ∉ m.executed.clientIds
  live : ∀ o ∈ m.executed.orderIds, o ∉ m.filled → KnownOpen m.worker o

/-- The answers get through. -/
def Heard (m : Market) : Event → Prop
  | .call attempts uuid _ =>
      ∀ req, m.worker.stage = .placing req →
        if RestClient.linkId uuid req ∈ m.executed.clientIds then FirstGarbled (List.ofFn attempts)
        else FirstHeard m.executed (List.ofFn attempts)
  | _ => True

/-- The worker knows executed orders only. -/
structure OnlyExecuted (m : Market) : Prop where
  known : ∀ o, KnownOpen m.worker o → o ∈ m.executed.orderIds
  filled : ∀ o ∈ m.filled, o ∈ m.executed.orderIds

variable {m : Market}

/-! ### Calls -/

section Call

variable {req : OrderRequest} {attempts : Fin maxAttempts → Attempt} {uuid : String}
  {tsExchange : ℤ}

/-- What the worker does with a result. -/
inductive Called (m : Market) (req : OrderRequest) (id : String) (r : Executed × RequestResult)
    (m' : Market) : Prop where
  | placed (o : String) (p : PlacedOrder) (hresult : r.2 = .orderId o) (hp : p.orderId = o)
      (hworker : m'.worker = { m.worker with stage := .persisting req p })
      (hrecorded : m'.recorded = Function.update m.recorded id (some "placed"))
  | failed (hresult : r.2 = .restError)
      (hworker : m'.worker = { m.worker with stage := .reporting })
      (hrecorded : m'.recorded = Function.update m.recorded id (some "failed"))
  | raised (hresult : r.2 = .raised) (hworker : m'.worker = { m.worker with stage := .ended })
      (hrecorded : m'.recorded = m.recorded)

variable (attempts uuid tsExchange) in
theorem called (hstage : m.worker.stage = .placing req) :
    let m' := (m.call req attempts uuid tsExchange).1
    let r := request m.executed (RestClient.linkId uuid req) (List.ofFn attempts)
    m'.executed = r.1 ∧ m'.filled = m.filled ∧
      Called m req (RestClient.linkId uuid req) r m' := by
  intro m' r
  have hnext : m'.worker = (m.worker.placed req (responseOf req tsExchange r.2)).1 ∧
      m'.recorded = record m.recorded (RestClient.linkId uuid req)
        (m.worker.placed req (responseOf req tsExchange r.2)).2 := by
    have hworker : ∀ answer, m.worker.step (.response answer) = m.worker.placed req answer := by
      intro answer
      simp only [OrderQueueWorker.step, hstage]
    rw [← hworker]
    exact ⟨rfl, rfl⟩
  refine ⟨rfl, rfl, ?_⟩
  cases hr : r.2 with
  | orderId o =>
      rw [hr] at hnext
      exact .placed o ⟨o, req.clientOrderId, .placed, tsExchange⟩ hr rfl hnext.1 hnext.2
  | restError =>
      rw [hr] at hnext
      exact .failed hr hnext.1 hnext.2
  | raised =>
      rw [hr] at hnext
      exact .raised hr hnext.1 hnext.2

theorem Called.openOrders {id : String} {r : Executed × RequestResult} {m' : Market}
    (h : Called m req id r m') : m'.worker.openOrders = m.worker.openOrders := by
  cases h with
  | placed o p _ _ hworker _ => rw [hworker]
  | failed _ hworker _ => rw [hworker]
  | raised _ hworker _ => rw [hworker]

theorem mem_openOrders_of_knownOpen (hstage : m.worker.stage = .placing req) {o : String}
    (h : KnownOpen m.worker o) : o ∈ m.worker.openOrders := by
  rcases h with h | ⟨req', p, h, -⟩
  · exact h
  · rw [hstage] at h
    cases h

/-- A call that executes nothing leaves the records true when it records no failure of an executed
order. -/
theorem TrueRecords.of_executed_eq (h : TrueRecords m) (hstage : m.worker.stage = .placing req)
    {m' : Market} (hexecuted : m'.executed = m.executed) (hfilled : m'.filled = m.filled)
    (hopen : m'.worker.openOrders = m.worker.openOrders)
    (hrecorded : ∀ id, m'.recorded id = some "failed" →
      m.recorded id = some "failed" ∨ id ∉ m.executed.clientIds) : TrueRecords m' where
  failed id hid := by
    rw [hexecuted]
    exact (hrecorded id hid).elim (h.failed id) fun hn => hn
  live o ho hunfilled := by
    rw [hexecuted] at ho
    rw [hfilled] at hunfilled
    rw [KnownOpen, hopen]
    exact .inl (mem_openOrders_of_knownOpen hstage (h.live o ho hunfilled))

theorem trueRecords_call_repeated (h : TrueRecords m) (hstage : m.worker.stage = .placing req)
    (hid : RestClient.linkId uuid req ∈ m.executed.clientIds) :
    TrueRecords (m.call req attempts uuid tsExchange).1 ↔ FirstGarbled (List.ofFn attempts) := by
  obtain ⟨hexecuted, hfilled, hcalled⟩ :=
    called attempts uuid tsExchange hstage
  generalize (m.call req attempts uuid tsExchange).1 = m' at hexecuted hfilled hcalled ⊢
  obtain ⟨hx, hr⟩ := request_of_mem hid (List.ofFn attempts)
  rw [hx] at hexecuted
  have hopen := hcalled.openOrders
  cases hcalled with
  | placed o p hresult _ _ _ =>
      rcases hr with ⟨hr, -⟩ | ⟨hr, -⟩
      all_goals
        rw [hr] at hresult
        cases hresult
  | failed hresult hworker hrecorded =>
      have hgarbled : ¬ FirstGarbled (List.ofFn attempts) := by
        rcases hr with ⟨hr, -⟩ | ⟨-, hr⟩
        · rw [hr] at hresult
          cases hresult
        · exact hr
      refine iff_of_false (fun hm' => ?_) hgarbled
      refine hm'.failed (RestClient.linkId uuid req) ?_ (hexecuted ▸ hid)
      rw [hrecorded, Function.update_self]
  | raised hresult hworker hrecorded =>
      have hgarbled : FirstGarbled (List.ofFn attempts) := by
        rcases hr with ⟨-, hr⟩ | ⟨hr, -⟩
        · exact hr
        · rw [hr] at hresult
          cases hresult
      refine iff_of_true (h.of_executed_eq hstage hexecuted hfilled hopen ?_) hgarbled
      intro id hid'
      rw [hrecorded] at hid'
      exact .inl hid'

/-- After a record, a failure is the recorded one or an old one. -/
theorem failed_of_update {recorded : String → Option String} {id status id' : String}
    (h : Function.update recorded id (some status) id' = some "failed") :
    id' = id ∧ status = "failed" ∨ id' ≠ id ∧ recorded id' = some "failed" := by
  rw [Function.update_apply] at h
  split at h
  · next heq => exact .inl ⟨heq, Option.some.inj h⟩
  · next hne => exact .inr ⟨hne, h⟩

theorem trueRecords_of_nothing (h : TrueRecords m) (hstage : m.worker.stage = .placing req)
    {id : String} (hid : id ∉ m.executed.clientIds) {r : Executed × RequestResult} {m' : Market}
    (hcalled : Called m req id r m') (hr : r.2 = .restError ∨ r.2 = .raised)
    (hexecuted : m'.executed = m.executed) (hfilled : m'.filled = m.filled) :
    TrueRecords m' := by
  have hopen := hcalled.openOrders
  refine h.of_executed_eq hstage hexecuted hfilled hopen fun id' hid' => ?_
  cases hcalled with
  | placed o p hresult _ _ _ =>
      rcases hr with hr | hr
      all_goals
        rw [hr] at hresult
        cases hresult
  | failed hresult hworker hrecorded =>
      rw [hrecorded] at hid'
      rcases failed_of_update hid' with ⟨rfl, -⟩ | ⟨-, hold⟩
      · exact .inr hid
      · exact .inl hold
  | raised hresult hworker hrecorded =>
      rw [hrecorded] at hid'
      exact .inl hid'

theorem trueRecords_of_placed (h : TrueRecords m) (hstage : m.worker.stage = .placing req)
    {id o : String} {p : PlacedOrder} (hp : p.orderId = o) {m' : Market}
    (hexecuted : m'.executed = (id, o) :: m.executed) (hfilled : m'.filled = m.filled)
    (hworker : m'.worker = { m.worker with stage := .persisting req p })
    (hrecorded : m'.recorded = Function.update m.recorded id (some "placed")) :
    TrueRecords m' := by
  refine ⟨fun id' hid' => ?_, fun o' ho' hunfilled => ?_⟩
  · rw [hrecorded] at hid'
    rw [hexecuted]
    rcases failed_of_update hid' with ⟨-, hstatus⟩ | ⟨hne, hold⟩
    · exact absurd hstatus (by decide)
    · exact List.not_mem_cons_of_ne_of_not_mem hne (h.failed id' hold)
  · rw [hexecuted] at ho'
    rw [hfilled] at hunfilled
    rw [KnownOpen, hworker]
    rcases List.mem_cons.mp ho' with rfl | ho'
    · exact .inr ⟨req, p, rfl, hp⟩
    · exact .inl (mem_openOrders_of_knownOpen hstage (h.live o' ho' hunfilled))

/-- The loop has ended without the order that was executed. -/
theorem not_trueRecords_of_ended (hknown : OnlyExecuted m) {id o : String}
    (hnew : o ∉ m.executed.orderIds) {m' : Market}
    (hexecuted : m'.executed = (id, o) :: m.executed) (hfilled : m'.filled = m.filled)
    (hworker : m'.worker = { m.worker with stage := .ended }) : ¬ TrueRecords m' := by
  intro hm'
  have hunfilled : o ∉ m'.filled := by
    rw [hfilled]
    exact fun ho => hnew (hknown.filled o ho)
  have ho : o ∈ m'.executed.orderIds := by
    rw [hexecuted]
    exact List.mem_cons_self
  have hlive := hm'.live o ho hunfilled
  rw [KnownOpen, hworker] at hlive
  rcases hlive with ho | ⟨req', p, hpersisting, -⟩
  · exact hnew (hknown.known o (.inl ho))
  · cases hpersisting

theorem trueRecords_call_new (h : TrueRecords m) (hknown : OnlyExecuted m)
    (hstage : m.worker.stage = .placing req)
    (hid : RestClient.linkId uuid req ∉ m.executed.clientIds) :
    TrueRecords (m.call req attempts uuid tsExchange).1 ↔
      FirstHeard m.executed (List.ofFn attempts) := by
  obtain ⟨hexecuted, hfilled, hcalled⟩ :=
    called attempts uuid tsExchange hstage
  rw [← truthful_iff hid]
  generalize (m.call req attempts uuid tsExchange).1 = m' at hexecuted hfilled hcalled ⊢
  generalize RestClient.linkId uuid req = id at hid hexecuted hcalled ⊢
  cases requested hid (List.ofFn attempts) with
  | nothing hx hr =>
      rw [hx] at hexecuted
      refine iff_of_true (trueRecords_of_nothing h hstage hid hcalled hr hexecuted hfilled) ?_
      rw [hx]
      rcases hr with hr | hr <;> rw [hr] <;> exact hid
  | order o hnew hx hr =>
      rw [hx] at hexecuted
      have hmem : id ∈ Executed.clientIds ((id, o) :: m.executed) := List.mem_cons_self
      cases hcalled with
      | placed o' p hresult hp hworker hrecorded =>
          obtain rfl : o = o' := by
            rcases hr with hr | hr | hr <;> rw [hr] at hresult <;> cases hresult
            rfl
          refine iff_of_true
            (trueRecords_of_placed h hstage hp hexecuted hfilled hworker hrecorded) ?_
          rw [hx, hresult]
          exact List.mem_cons_self
      | failed hresult hworker hrecorded =>
          refine iff_of_false (fun hm' => ?_) ?_
          · refine hm'.failed id ?_ (hexecuted ▸ hmem)
            rw [hrecorded, Function.update_self]
          · rw [hx, hresult]
            exact fun hn => hn hmem
      | raised hresult hworker hrecorded =>
          refine iff_of_false (not_trueRecords_of_ended hknown hnew hexecuted hfilled hworker) ?_
          rw [hx, hresult]
          exact fun hn => hn hmem

theorem onlyExecuted_call (hknown : OnlyExecuted m) (hstage : m.worker.stage = .placing req) :
    OnlyExecuted (m.call req attempts uuid tsExchange).1 := by
  obtain ⟨hexecuted, hfilled, hcalled⟩ :=
    called attempts uuid tsExchange hstage
  obtain ⟨hmono, horder⟩ :=
    request_orderIds m.executed (RestClient.linkId uuid req) (List.ofFn attempts)
  rw [← hexecuted] at hmono horder
  refine ⟨fun o ho => ?_, fun o ho => hmono o (hknown.filled o (hfilled ▸ ho))⟩
  rcases ho with ho | ⟨req', p, hpersisting, rfl⟩
  · rw [hcalled.openOrders] at ho
    exact hmono o (hknown.known o (.inl ho))
  · cases hcalled with
    | placed o p' hresult hp hworker _ =>
        rw [hworker] at hpersisting
        cases hpersisting
        rw [hp]
        exact horder o hresult
    | failed _ hworker _ =>
        rw [hworker] at hpersisting
        cases hpersisting
    | raised _ hworker _ =>
        rw [hworker] at hpersisting
        cases hpersisting

end Call

/-! ### Other events -/

theorem knownOpen_ordinary {w : OrderQueueWorker} {i : Input} (hi : Ordinary i = true)
    (o : String) : KnownOpen (w.step i).1 o ↔ KnownOpen w o := by
  have hcancel : i ≠ .cancel := by
    rintro rfl
    cases hi
  by_cases hins : ∃ req p, OrderQueueWorker.Inserts w i req p
  · obtain ⟨req, p, hins⟩ := hins
    rw [OrderQueueWorker.step_insert hins]
    simp only [KnownOpen, OrderQueueWorker.insertOpen, AList.mem_insert, hins.2]
    constructor
    · rintro ((rfl | ho) | ⟨req', p', hstage, -⟩)
      · exact .inr ⟨req, p, rfl, rfl⟩
      · exact .inl ho
      · cases hstage
    · rintro (ho | ⟨req', p', hstage, rfl⟩)
      · exact .inl (.inr ho)
      · cases hstage
        exact .inl (.inl rfl)
  · have hfill : ∀ f, i ≠ .fill f := by
      rintro f rfl
      cases hi
    have hkeeps := OrderQueueWorker.step_keeps (fun req p h => hins ⟨req, p, h⟩) hfill
    unfold KnownOpen
    rw [hkeeps.books.openOrders]
    refine or_congr_right ⟨?_, ?_⟩
    · rintro ⟨req, p, hstage, hp⟩
      rcases hkeeps.persisting req p hstage with hstage' | ⟨-, rfl, -⟩
      · exact ⟨req, p, hstage', hp⟩
      · cases hi
    · rintro ⟨req, p, hstage, hp⟩
      have hwritten : i ≠ .written := fun h => hins ⟨req, p, h, hstage⟩
      exact ⟨req, p, OrderQueueWorker.persisting_of_step hstage hwritten hcancel, hp⟩

theorem knownOpen_fill (w : OrderQueueWorker) (f : OrderFilled) (o : String) :
    (KnownOpen (w.step (.fill f)).1 o → KnownOpen w o) ∧
      (o ≠ f.orderId → KnownOpen w o → KnownOpen (w.step (.fill f)).1 o) := by
  have hstage : (w.step (.fill f)).1.stage = w.stage := (OrderQueueWorker.handleFill_loop w f).1
  have hopen : (w.step (.fill f)).1.openOrders = w.openOrders ∨
      (w.step (.fill f)).1.openOrders = w.openOrders.erase f.orderId := by
    by_cases hseen : f.orderId ∈ w.seenFillIds
    · rw [OrderQueueWorker.step_fill_seen hseen]
      exact .inl rfl
    · cases hlookup : w.openOrders.lookup f.orderId with
      | none =>
          rw [OrderQueueWorker.step_fill_unknown hseen hlookup]
          exact .inl rfl
      | some order => exact .inr (OrderQueueWorker.step_fill_known hseen hlookup).1.openOrders
  unfold KnownOpen
  rw [hstage]
  rcases hopen with hopen | hopen <;> rw [hopen]
  · exact ⟨fun h => h, fun _ h => h⟩
  · rw [AList.mem_erase]
    refine ⟨fun h => h.imp_left And.right, fun hne h => h.imp_left fun ho => ⟨hne, ho⟩⟩

theorem TrueRecords.of_knownOpen (h : TrueRecords m) {w : OrderQueueWorker}
    (hopen : ∀ o, KnownOpen m.worker o → KnownOpen w o) : TrueRecords { m with worker := w } :=
  ⟨h.failed, fun o ho hunfilled => hopen o (h.live o ho hunfilled)⟩

theorem OnlyExecuted.of_knownOpen (h : OnlyExecuted m) {w : OrderQueueWorker}
    (hopen : ∀ o, KnownOpen w o → KnownOpen m.worker o) : OnlyExecuted { m with worker := w } :=
  ⟨fun o ho => h.known o (hopen o ho), h.filled⟩

theorem TrueRecords.fill (h : TrueRecords m) (f : OrderFilled) :
    TrueRecords
      { m with worker := (m.worker.step (.fill f)).1, filled := f.orderId :: m.filled } := by
  refine ⟨h.failed, fun o ho hunfilled => ?_⟩
  have hne : o ≠ f.orderId := List.ne_of_not_mem_cons hunfilled
  exact (knownOpen_fill m.worker f o).2 hne
    (h.live o ho (List.not_mem_of_not_mem_cons hunfilled))

theorem OnlyExecuted.fill (h : OnlyExecuted m) {f : OrderFilled}
    (hf : f.orderId ∈ m.executed.orderIds) :
    OnlyExecuted
      { m with worker := (m.worker.step (.fill f)).1, filled := f.orderId :: m.filled } := by
  refine ⟨fun o ho => h.known o ((knownOpen_fill m.worker f o).1 ho), fun o ho => ?_⟩
  rcases List.mem_cons.mp ho with rfl | ho
  · exact hf
  · exact h.filled o ho

/-- **One step.**  The records stay true exactly when the answers get through. -/
theorem trueRecords_step (h : TrueRecords m) (hknown : OnlyExecuted m) (e : Event) :
    (TrueRecords (step m e).1 ↔ Heard m e) ∧ OnlyExecuted (step m e).1 := by
  cases e with
  | call attempts uuid tsExchange =>
      by_cases hplacing : ∃ req, m.worker.stage = .placing req
      · obtain ⟨req, hstage⟩ := hplacing
        have hstep : step m (.call attempts uuid tsExchange) =
            m.call req attempts uuid tsExchange := by
          simp only [step, hstage]
        rw [hstep]
        refine ⟨?_, onlyExecuted_call hknown hstage⟩
        have hheard : Heard m (.call attempts uuid tsExchange) ↔
            if RestClient.linkId uuid req ∈ m.executed.clientIds then
              FirstGarbled (List.ofFn attempts)
            else FirstHeard m.executed (List.ofFn attempts) := by
          refine ⟨fun hm => hm req hstage, fun hm req' hstage' => ?_⟩
          rw [hstage] at hstage'
          cases hstage'
          exact hm
        rw [hheard]
        by_cases hid : RestClient.linkId uuid req ∈ m.executed.clientIds
        · rw [if_pos hid]
          exact trueRecords_call_repeated h hstage hid
        · rw [if_neg hid]
          exact trueRecords_call_new h hknown hstage hid
      · have hstep : step m (.call attempts uuid tsExchange) = (m, []) := by
          simp only [step]
          split
          · next req hstage => exact absurd ⟨req, hstage⟩ hplacing
          · rfl
        rw [hstep]
        exact ⟨iff_of_true h fun req hstage => absurd ⟨req, hstage⟩ hplacing, hknown⟩
  | fill f =>
      simp only [step]
      split
      · next hf => exact ⟨iff_of_true (h.fill f) trivial, hknown.fill hf⟩
      · exact ⟨iff_of_true h trivial, hknown⟩
  | other i =>
      simp only [step]
      split
      · next hi =>
          exact ⟨iff_of_true (h.of_knownOpen fun o => (knownOpen_ordinary hi o).mpr) trivial,
            hknown.of_knownOpen fun o => (knownOpen_ordinary hi o).mp⟩
      · exact ⟨iff_of_true h trivial, hknown⟩

/-! ### Runs -/

theorem trueRecords_opened (w : OrderQueueWorker) : TrueRecords (opened w) :=
  ⟨fun _ h => (by cases h), fun _ ho => absurd ho List.not_mem_nil⟩

theorem onlyExecuted_opened (strategyName : String) (pct portfolio : ℚ≥0) (limit : ℚ) :
    OnlyExecuted (opened (.new strategyName pct portfolio limit)) := by
  refine ⟨fun o ho => ?_, fun o ho => absurd ho List.not_mem_nil⟩
  rcases ho with ho | ⟨req, p, hstage, -⟩
  · exact absurd ho (AList.notMem_empty o)
  · cases hstage

/-- **The records of a run are true exactly when the answers get through.** -/
theorem trueRecords_iff_heard (strategyName : String) (pct portfolio : ℚ≥0) (limit : ℚ)
    (es : List Event) :
    Along step (fun m e => TrueRecords (step m e).1)
        (opened (.new strategyName pct portfolio limit)) es ↔
      Along step Heard (opened (.new strategyName pct portfolio limit)) es := by
  refine along_iff_along (I := fun m => TrueRecords m ∧ OnlyExecuted m) ?_ es
    ⟨trueRecords_opened _, onlyExecuted_opened strategyName pct portfolio limit⟩
  intro m e ⟨h, hknown⟩
  obtain ⟨hiff, hnext⟩ := trueRecords_step h hknown e
  exact ⟨hiff, fun hheard => ⟨hiff.mpr hheard, hnext⟩⟩

/-- The exchange executes an order, its answer is lost, and the next attempt is refused. -/
def lostAnswer : Fin maxAttempts → Attempt := fun k =>
  ⟨true, some "o1", if k.val = 0 then .lost else .intact⟩

/-- The order is recorded as failed, and it is live. -/
theorem lost_answer_recorded_failed :
    ¬ Along step (fun m e => TrueRecords (step m e).1)
      (opened (.new "MACrossBot" (1 / 2) 1000 0))
      [.other (.post { OrderQueueWorker.tenthOrder "MACrossBot" .entry .buy with
        clientOrderId := "c1" }), .other (.check false), .other .take,
        .call lostAnswer "u1" 0] := by
  intro h
  obtain ⟨-, -, -, htrue, -⟩ := h
  exact htrue.failed "c1" (by decide +kernel) (by decide +kernel)

end Market

end MagnumOpus.Bot
