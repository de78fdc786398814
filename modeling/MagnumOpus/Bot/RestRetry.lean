import MagnumOpus.Bot.OrderWorker
import MagnumOpus.Bot.SignedRequests

/-! # Retries of a request

`_request` of both REST clients (`exchange/bybit/rest.py`, `exchange/kucoin/rest.py`) tries a
request four times: it tries again when nothing comes back and after a server error, and raises the
error of any other answer at once.

* **Exchange.** It executes an order once for each client order id, and answers a repeated id with
  an error (`serve`).
* **Attempt.** A request may not arrive, and its answer may get lost or be unreadable.

When the id is new, what `place_order` comes to is true of the exchange exactly when the answer to
the first attempt that the exchange accepts gets through (`truthful_iff`). -/

namespace MagnumOpus.Bot

/-- The executed orders of an exchange: their client order ids, and the ids it gave them. -/
abbrev Executed := List (String × String)

namespace Executed

def clientIds (x : Executed) : List String := x.map Prod.fst

def orderIds (x : Executed) : List String := x.map Prod.snd

end Executed

/-- What comes back of a request. -/
inductive Answer where
  /-- Nothing, or too late (`httpx.HTTPError`). -/
  | lost
  /-- A status from 500 on. -/
  | serverError
  /-- Another error status that is not the exchange's own. -/
  | clientError
  /-- A text that has no order id where it is expected. -/
  | garbled
  /-- What the exchange answered. -/
  | intact
deriving DecidableEq, Repr

structure Attempt where
  /-- The request reaches the exchange. -/
  received : Bool
  /-- The id that a new order is given, unless it is refused. -/
  orderId : Option String
  answer : Answer
deriving DecidableEq, Repr

/-- What `_request` comes to. -/
inductive RequestResult where
  | orderId (id : String)
  | restError
  | raised
deriving DecidableEq, Repr

/-- The exchange's side of a request: an order id, or an error. -/
def serve (x : Executed) (id : String) (orderId : Option String) : Executed × Option String :=
  match orderId with
  | some o => if id ∈ x.clientIds ∨ o ∈ x.orderIds then (x, none) else ((id, o) :: x, some o)
  | none => (x, none)

/-- What an attempt comes to; without a result there is another one. -/
def resultOf (a : Attempt) (reply : Option String) : Option RequestResult :=
  match a.answer with
  | .lost => none
  | .serverError => none
  | .clientError => some .restError
  | .garbled => some .raised
  | .intact =>
      -- There is no answer to a request that did not arrive.
      if a.received then some ((reply.map .orderId).getD .restError) else none

def attempt (x : Executed) (id : String) (a : Attempt) : Executed × Option RequestResult :=
  let served := if a.received then serve x id a.orderId else (x, none)
  (served.1, resultOf a served.2)

def request (x : Executed) (id : String) : List Attempt → Executed × RequestResult
  | [] => (x, .restError)
  | a :: as =>
      match attempt x id a with
      | (x', none) => request x' id as
      | (x', some r) => (x', r)

/-- Seconds. -/
def retryDelays : List ℕ := [1, 2, 4]

def maxAttempts : ℕ := 1 + retryDelays.length

def responseOf (req : OrderRequest) (tsExchange : ℤ) : RequestResult → Response
  | .orderId o => .returned ⟨o, req.clientOrderId, .placed, tsExchange⟩
  | .restError => .restError
  | .raised => .raised

/-- `place_order` of both clients: the exchange, and what the worker gets. -/
def placeOrder (x : Executed) (uuid : String) (req : OrderRequest) (tsExchange : ℤ)
    (attempts : Fin maxAttempts → Attempt) : Executed × Response :=
  let r := request x (RestClient.linkId uuid req) (List.ofFn attempts)
  (r.1, responseOf req tsExchange r.2)

/-! ### True results -/

/-- The result is true of the exchange: an order that is not returned has not been executed. -/
def Truthful (x : Executed) (id : String) : RequestResult → Prop
  | .orderId o => (id, o) ∈ x
  | .restError => id ∉ x.clientIds
  | .raised => id ∉ x.clientIds

/-- The exchange executes the order of an attempt when its id is new. -/
def Attempt.Accepted (x : Executed) (a : Attempt) : Prop :=
  a.received = true ∧ ∃ o, a.orderId = some o ∧ o ∉ x.orderIds

/-- After the attempt there is another one. -/
def Attempt.Retried (a : Attempt) : Prop :=
  a.answer = .lost ∨ a.answer = .serverError ∨ a.answer = .intact ∧ a.received = false

/-- The answer to the first attempt that is accepted gets through. -/
def FirstHeard (x : Executed) : List Attempt → Prop
  | [] => True
  | a :: as =>
      (a.Accepted x → a.answer = .intact) ∧ (¬ a.Accepted x → a.Retried → FirstHeard x as)

/-- An answer that cannot be read comes before any other. -/
def FirstGarbled : List Attempt → Prop
  | [] => False
  | a :: as => a.answer = .garbled ∨ a.Retried ∧ FirstGarbled as

theorem serve_of_mem {x : Executed} {id : String} (h : id ∈ x.clientIds) (orderId : Option String) :
    serve x id orderId = (x, none) := by
  unfold serve
  cases orderId with
  | none => rfl
  | some o => exact if_pos (.inl h)

/-- A repeated id changes nothing, and no order id comes back. -/
theorem attempt_of_mem {x : Executed} {id : String} (h : id ∈ x.clientIds) (a : Attempt) :
    attempt x id a = (x, resultOf a none) := by
  unfold attempt
  split
  · rw [serve_of_mem h]
  · rfl

theorem request_of_mem {x : Executed} {id : String} (h : id ∈ x.clientIds) (as : List Attempt) :
    (request x id as).1 = x ∧
      ((request x id as).2 = .raised ∧ FirstGarbled as ∨
        (request x id as).2 = .restError ∧ ¬ FirstGarbled as) := by
  induction as with
  | nil => exact ⟨rfl, .inr ⟨rfl, not_false⟩⟩
  | cons a as ih =>
      rw [request, attempt_of_mem h]
      cases hanswer : a.answer with
      | lost => simpa [resultOf, FirstGarbled, Attempt.Retried, hanswer] using ih
      | serverError => simpa [resultOf, FirstGarbled, Attempt.Retried, hanswer] using ih
      | clientError => simp [resultOf, FirstGarbled, Attempt.Retried, hanswer]
      | garbled => simp [resultOf, FirstGarbled, hanswer]
      | intact =>
          cases hreceived : a.received with
          | false =>
              simpa [resultOf, FirstGarbled, Attempt.Retried, hanswer, hreceived] using ih
          | true => simp [resultOf, FirstGarbled, Attempt.Retried, hanswer, hreceived]

theorem not_truthful_of_mem {x : Executed} {id : String} (h : id ∈ x.clientIds)
    (as : List Attempt) : ¬ Truthful (request x id as).1 id (request x id as).2 := by
  obtain ⟨hx, ⟨hr, -⟩ | ⟨hr, -⟩⟩ := request_of_mem h as
  · rw [hx, hr]
    exact fun hn => hn h
  · rw [hx, hr]
    exact fun hn => hn h

theorem attempt_of_accepted {x : Executed} {id : String} (hid : id ∉ x.clientIds) {a : Attempt}
    (h : a.Accepted x) :
    ∃ o, o ∉ x.orderIds ∧ attempt x id a = ((id, o) :: x, resultOf a (some o)) := by
  obtain ⟨hreceived, o, ho, hnew⟩ := h
  refine ⟨o, hnew, ?_⟩
  rw [attempt, hreceived, if_pos rfl, ho, serve, if_neg (not_or.mpr ⟨hid, hnew⟩)]

theorem attempt_of_not_accepted {x : Executed} (id : String) {a : Attempt} (h : ¬ a.Accepted x) :
    attempt x id a = (x, resultOf a none) := by
  cases hreceived : a.received with
  | false => simp [attempt, hreceived]
  | true =>
      have hserve : serve x id a.orderId = (x, none) := by
        cases ho : a.orderId with
        | none => rfl
        | some o =>
            have hold : o ∈ x.orderIds := by
              by_contra hnew
              exact h ⟨hreceived, o, ho, hnew⟩
            rw [serve, if_pos (.inr hold)]
      rw [attempt, hreceived, if_pos rfl, hserve]

theorem resultOf_eq_none_iff (a : Attempt) (reply : Option String) :
    resultOf a reply = none ↔ a.Retried := by
  unfold resultOf Attempt.Retried
  cases a.answer <;> cases a.received <;> simp

/-- An order id comes back from an intact answer only. -/
theorem resultOf_eq_orderId {a : Attempt} {reply : Option String} {o : String}
    (h : resultOf a reply = some (.orderId o)) : a.answer = .intact ∧ reply = some o := by
  unfold resultOf at h
  cases hanswer : a.answer <;> cases hreply : reply <;> simp_all

/-- What a request with a new id leaves: nothing, or one new order. -/
inductive Requested (x : Executed) (id : String) (as : List Attempt) : Prop where
  | nothing (hrequest : (request x id as).1 = x)
      (hresult : (request x id as).2 = .restError ∨ (request x id as).2 = .raised)
  | order (o : String) (hnew : o ∉ x.orderIds) (hrequest : (request x id as).1 = (id, o) :: x)
      (hresult : (request x id as).2 = .orderId o ∨ (request x id as).2 = .restError ∨
        (request x id as).2 = .raised)

theorem requested {x : Executed} {id : String} (hid : id ∉ x.clientIds) (as : List Attempt) :
    Requested x id as := by
  induction as with
  | nil => exact .nothing rfl (.inl rfl)
  | cons a as ih =>
      by_cases haccepted : a.Accepted x
      · obtain ⟨o, hnew, hattempt⟩ := attempt_of_accepted hid haccepted
        have hmem : id ∈ Executed.clientIds ((id, o) :: x) := List.mem_cons_self
        obtain ⟨hx, hr⟩ := request_of_mem hmem as
        cases hresult : resultOf a (some o) with
        | none =>
            have hrequest : request x id (a :: as) = request ((id, o) :: x) id as := by
              simp only [request, hattempt, hresult]
            refine .order o hnew (by rw [hrequest, hx]) (.inr ?_)
            rw [hrequest]
            exact hr.elim (fun h => .inr h.1) (fun h => .inl h.1)
        | some r =>
            have hrequest : request x id (a :: as) = ((id, o) :: x, r) := by
              simp only [request, hattempt, hresult]
            refine .order o hnew (by rw [hrequest]) ?_
            rw [hrequest]
            cases r with
            | orderId o' => exact .inl (by rw [Option.some.inj (resultOf_eq_orderId hresult).2])
            | restError => exact .inr (.inl rfl)
            | raised => exact .inr (.inr rfl)
      · have hattempt := attempt_of_not_accepted id haccepted
        cases hresult : resultOf a none with
        | none =>
            have hrequest : request x id (a :: as) = request x id as := by
              simp only [request, hattempt, hresult]
            cases ih with
            | nothing hx hr => exact .nothing (hrequest ▸ hx) (hrequest ▸ hr)
            | order o hnew hx hr => exact .order o hnew (hrequest ▸ hx) (hrequest ▸ hr)
        | some r =>
            have hrequest : request x id (a :: as) = (x, r) := by
              simp only [request, hattempt, hresult]
            refine .nothing (by rw [hrequest]) ?_
            rw [hrequest]
            cases r with
            | orderId o' => cases (resultOf_eq_orderId hresult).2
            | restError => exact .inl rfl
            | raised => exact .inr rfl

/-- **What a request with a new id comes to is true exactly when the answer to the first accepted
attempt gets through.** -/
theorem truthful_iff {x : Executed} {id : String} (hid : id ∉ x.clientIds) (as : List Attempt) :
    Truthful (request x id as).1 id (request x id as).2 ↔ FirstHeard x as := by
  induction as with
  | nil => exact iff_of_true hid trivial
  | cons a as ih =>
      by_cases haccepted : a.Accepted x
      · obtain ⟨o, -, hattempt⟩ := attempt_of_accepted hid haccepted
        have hmem : id ∈ Executed.clientIds ((id, o) :: x) := List.mem_cons_self
        rw [request, hattempt, FirstHeard]
        simp only [haccepted, true_imp_iff, not_true_eq_false, false_imp_iff, and_true]
        cases hanswer : a.answer with
        | intact =>
            have hreceived := haccepted.1
            simp [resultOf, hanswer, hreceived, Truthful]
        | lost => simpa [resultOf, hanswer] using not_truthful_of_mem hmem as
        | serverError => simpa [resultOf, hanswer] using not_truthful_of_mem hmem as
        | clientError => simp [resultOf, hanswer, Truthful, hmem]
        | garbled => simp [resultOf, hanswer, Truthful, hmem]
      · rw [request, attempt_of_not_accepted id haccepted, FirstHeard]
        simp only [haccepted, false_imp_iff, true_and, not_false_eq_true, true_imp_iff]
        cases hresult : resultOf a none with
        | none =>
            simpa [(resultOf_eq_none_iff a none).mp hresult] using ih
        | some r =>
            have hretried : ¬ a.Retried := by
              rw [← resultOf_eq_none_iff a none, hresult]
              exact Option.some_ne_none r
            refine iff_of_true ?_ (fun h => absurd h hretried)
            cases r with
            | orderId o => cases (resultOf_eq_orderId hresult).2
            | restError => exact hid
            | raised => exact hid

/-- No executed order is forgotten, and an order id that comes back is that of an executed one. -/
theorem request_orderIds (x : Executed) (id : String) (as : List Attempt) :
    (∀ o ∈ x.orderIds, o ∈ (request x id as).1.orderIds) ∧
      ∀ o, (request x id as).2 = .orderId o → o ∈ (request x id as).1.orderIds := by
  by_cases hid : id ∈ x.clientIds
  · obtain ⟨hx, hr⟩ := request_of_mem hid as
    refine ⟨fun o ho => by rwa [hx], fun o ho => ?_⟩
    rcases hr with ⟨hr, -⟩ | ⟨hr, -⟩ <;> rw [hr] at ho <;> cases ho
  · cases requested hid as with
    | nothing hx hr =>
        refine ⟨fun o ho => by rwa [hx], fun o ho => ?_⟩
        rcases hr with hr | hr <;> rw [hr] at ho <;> cases ho
    | order o' hnew hx hr =>
        rw [hx]
        refine ⟨fun o ho => List.mem_cons_of_mem _ ho, fun o ho => ?_⟩
        rcases hr with hr | hr | hr <;> rw [hr] at ho <;> cases ho
        exact List.mem_cons_self

end MagnumOpus.Bot
