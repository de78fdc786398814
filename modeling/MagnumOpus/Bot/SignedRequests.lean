import MagnumOpus.Bot.Orders
import MagnumOpus.Lib.JsonText
import MagnumOpus.Lib.QueryText
import Mathlib.Data.List.Sort

/-! # Signed requests

Both REST clients (`exchange/bybit/rest.py`, `exchange/kucoin/rest.py`) make the text that they sign
themselves, and leave it to `httpx` to make a query and a body of the same parameters and the same
JSON value.

* **Signed.** The pairs of the query as they are, sorted when the request is a GET, and the body as
  `json.dumps` writes it by default.  An empty object counts as no body.
* **Sent.** The pairs encoded, and the body without blanks and without escapes for non-ASCII
  characters.  An empty object is a body.

`Covers` says that what is signed contains what is sent.  It holds exactly of the requests without a
body whose parameters need no encoding. -/

namespace MagnumOpus.Bot

open JsonDecode JsonText QueryText

inductive RestClient where
  | bybit
  | kucoin
deriving DecidableEq, Repr

/-- The arguments of `_request`. -/
structure RestRequest where
  method : String
  path : String
  params : Option (List (String × String)) := none
  jsonBody : Option (List (String × JsonValue)) := none

namespace RestRequest

/-- `method.upper()`. -/
def upper (s : String) : Text := s.toList.map Char.toUpper

def isGet (req : RestRequest) : Bool := upper req.method = ['G', 'E', 'T']

/-- The order of the items of a dictionary. -/
def itemLe (p q : String × String) : Prop := p.1 < q.1 ∨ p.1 = q.1 ∧ p.2 ≤ q.2

instance : DecidableRel itemLe := fun p q =>
  inferInstanceAs (Decidable (p.1 < q.1 ∨ p.1 = q.1 ∧ p.2 ≤ q.2))

/-- The parameters of a GET request, when it has any. -/
def sortedParams (req : RestRequest) : Option (List (String × String)) :=
  match req.params with
  | some (p :: ps) => if req.isGet then some ((p :: ps).insertionSort itemLe) else none
  | _ => none

/-- The body that is signed. -/
def bodyStr (req : RestRequest) : Text :=
  match req.jsonBody with
  | some (f :: fs) => dumps standard (.obj (f :: fs))
  | _ => []

/-! ### What is signed -/

/-- The payload of a Bybit request: the query of a GET request, the body of any other. -/
def payload (req : RestRequest) : Text :=
  match req.sortedParams with
  | some sp => plainQuery sp
  | none => req.bodyStr

def recvWindow : Text := ['5', '0', '0', '0']

/-- The message of `_sign_bybit`. -/
def signBybit (timestamp apiKey payload : Text) : Text :=
  timestamp ++ (apiKey ++ (recvWindow ++ payload))

/-- The path of a KuCoin request, with the query of a GET request. -/
def signPath (req : RestRequest) : Text :=
  match req.sortedParams with
  | some sp => req.path.toList ++ '?' :: plainQuery sp
  | none => req.path.toList

/-- The message of `_sign_kucoin`. -/
def signKucoin (timestamp : Text) (method : String) (path bodyStr : Text) : Text :=
  timestamp ++ (upper method ++ (path ++ bodyStr))

/-- The text that is signed in one attempt; every attempt has its own timestamp. -/
def signed (req : RestRequest) (apiKey timestamp : Text) : RestClient → Text
  | .bybit => signBybit timestamp apiKey req.payload
  | .kucoin => signKucoin timestamp req.method req.signPath req.bodyStr

/-! ### What is sent -/

/-- The parameters that are handed to `httpx`. -/
def sentParams (req : RestRequest) : List (String × String) :=
  (req.sortedParams.or req.params).getD []

def sentQuery (req : RestRequest) (E : QueryEncoder) : Text := E.encodedQuery req.sentParams

def sentBody (req : RestRequest) : Text :=
  match req.jsonBody with
  | some fields => dumps compact (.obj fields)
  | none => []

/-- A path with the query that is sent. -/
def sentTarget (req : RestRequest) (E : QueryEncoder) : Text :=
  req.path.toList ++ if req.sentParams = [] then [] else '?' :: req.sentQuery E

/-- The exchange's own message: what was sent stands where the payload, or the path and the body,
stood. -/
def received (req : RestRequest) (E : QueryEncoder) (apiKey timestamp : Text) : RestClient → Text
  | .bybit => signBybit timestamp apiKey (req.sentQuery E ++ req.sentBody)
  | .kucoin => signKucoin timestamp req.method (req.sentTarget E) req.sentBody

/-- What is signed contains the query and the body that are sent. -/
def Covers (req : RestRequest) (E : QueryEncoder) (apiKey timestamp : Text)
    (client : RestClient) : Prop :=
  req.signed apiKey timestamp client = req.received E apiKey timestamp client

/-- There is no body, and the parameters are those of a GET request that need no encoding. -/
def Plain (req : RestRequest) : Prop :=
  req.jsonBody = none ∧
    (req.params.getD [] = [] ∨ req.isGet = true ∧ AllUnreserved (req.params.getD []))

theorem isGet_of_method {req : RestRequest} (h : req.method = "GET") : req.isGet = true := by
  rw [isGet, h]
  decide

/-! ### Bodies -/

variable (req : RestRequest) (E : QueryEncoder)

/-- A signed body starts with a brace. -/
theorem bodyStr_ne_cons {c : Char} (hc : c ≠ '{') (rest : Text) : req.bodyStr ≠ c :: rest := by
  unfold bodyStr
  split
  · next f fs _ =>
      obtain ⟨rest', h⟩ := dumps_obj standard (f :: fs)
      rw [h]
      intro heq
      exact hc (List.cons.inj heq).1.symm
  · exact (List.cons_ne_nil _ _).symm

theorem sentBody_eq_nil_iff : req.sentBody = [] ↔ req.jsonBody = none := by
  unfold sentBody
  split
  · next fields h =>
      obtain ⟨rest, hrest⟩ := dumps_obj compact fields
      rw [hrest, h]
      exact iff_of_false (List.cons_ne_nil _ _) (Option.some_ne_none _)
  · next h => exact iff_of_true rfl h

theorem length_bodyStr_ne {fields : List (String × JsonValue)} (h : req.jsonBody = some fields) :
    req.bodyStr.length ≠ req.sentBody.length := by
  unfold bodyStr sentBody
  rw [h]
  cases fields with
  | nil => simp [dumps, dumpsFields]
  | cons f fs =>
      have hlt := length_dumps_obj_lt (List.cons_ne_nil f fs)
      exact Nat.ne_of_gt hlt

theorem bodyStr_eq_sentBody_iff : req.bodyStr = req.sentBody ↔ req.jsonBody = none := by
  cases h : req.jsonBody with
  | none => simp [bodyStr, sentBody, h]
  | some fields =>
      refine iff_of_false (fun heq => ?_) (Option.some_ne_none _)
      exact req.length_bodyStr_ne h (congrArg List.length heq)

/-! ### Queries -/

theorem brace_not_mem_encodedQuery (params : List (String × String)) :
    '{' ∉ E.encodedQuery params := by
  intro h
  rcases E.of_mem_encodedQuery h with h | h <;> revert h <;> decide

/-- A query and a body stay the same only when both do. -/
theorem query_append_body_eq_iff (params : List (String × String)) :
    plainQuery params ++ req.bodyStr = E.encodedQuery params ++ req.sentBody ↔
      AllUnreserved params ∧ req.jsonBody = none := by
  rw [← E.encodedQuery_eq_iff, ← req.bodyStr_eq_sentBody_iff]
  constructor
  · intro h
    have hle := E.length_plain_le_encoded params
    rcases List.append_eq_append_iff.mp h with ⟨t, hquery, hbody⟩ | ⟨t, hquery, hbody⟩
    · cases t with
      | nil => exact ⟨by rw [hquery, List.append_nil], hbody⟩
      | cons c t =>
          -- What the encoding adds would have to be the start of the body.
          by_cases hc : c = '{'
          · subst hc
            exact absurd (hquery ▸ List.mem_append_right _ List.mem_cons_self)
              (brace_not_mem_encodedQuery E params)
          · exact absurd hbody (req.bodyStr_ne_cons hc _)
    · have hlen := congrArg List.length hquery
      rw [List.length_append] at hlen
      have ht : t = [] := List.eq_nil_of_length_eq_zero (by omega)
      subst ht
      exact ⟨by rw [hquery, List.append_nil], hbody.symm⟩
  · rintro ⟨hquery, hbody⟩
    rw [hquery, hbody]

theorem allUnreserved_perm {ps qs : List (String × String)} (h : ps.Perm qs) :
    AllUnreserved ps ↔ AllUnreserved qs := by
  unfold AllUnreserved
  exact forall_congr' fun p => by rw [h.mem_iff]

theorem params_cases :
    (req.params.getD [] = [] ∧ req.sortedParams = none ∧ req.sentParams = []) ∨
    (req.params.getD [] ≠ [] ∧ req.isGet = false ∧ req.sortedParams = none ∧
      req.sentParams ≠ []) ∨
    (req.params.getD [] ≠ [] ∧ req.isGet = true ∧ req.sortedParams = some req.sentParams ∧
      req.sentParams ≠ [] ∧
      (AllUnreserved req.sentParams ↔ AllUnreserved (req.params.getD []))) := by
  unfold sentParams sortedParams
  cases hparams : req.params with
  | none => exact .inl ⟨rfl, rfl, rfl⟩
  | some params =>
      cases params with
      | nil => exact .inl ⟨rfl, rfl, rfl⟩
      | cons p ps =>
          cases hget : req.isGet with
          | false => exact .inr (.inl ⟨List.cons_ne_nil _ _, rfl, rfl, List.cons_ne_nil _ _⟩)
          | true =>
              have hperm := List.perm_insertionSort itemLe (p :: ps)
              refine .inr (.inr ⟨List.cons_ne_nil _ _, rfl, rfl, fun h => ?_,
                allUnreserved_perm hperm⟩)
              have hnil := hperm.length_eq
              rw [show List.insertionSort itemLe (p :: ps) = [] from h] at hnil
              cases hnil

/-! ### What is covered -/

theorem covers_bybit_iff (apiKey timestamp : Text) :
    req.Covers E apiKey timestamp .bybit ↔ req.Plain := by
  simp only [Covers, signed, received, signBybit, List.append_cancel_left_eq, payload, sentQuery,
    Plain]
  rcases req.params_cases with ⟨hparams, hsorted, hsent⟩ | ⟨hparams, hget, hsorted, hsent⟩ |
    ⟨hparams, hget, hsorted, -, hall⟩
  · simp only [hsorted, hsent, hparams, QueryEncoder.encodedQuery, queryText_nil, List.nil_append,
      true_or, and_true]
    exact req.bodyStr_eq_sentBody_iff
  · -- A query that is not of a GET request is not signed.
    simp only [hsorted, hparams, hget, Bool.false_eq_true, false_and, or_self, and_false, iff_false]
    intro h
    obtain ⟨c, rest, hquery⟩ := List.exists_cons_of_ne_nil (queryText_ne_nil _ hsent)
    have hc : c ≠ '{' := by
      rintro rfl
      refine brace_not_mem_encodedQuery E req.sentParams ?_
      rw [QueryEncoder.encodedQuery, hquery]
      exact List.mem_cons_self
    rw [QueryEncoder.encodedQuery, hquery] at h
    exact req.bodyStr_ne_cons hc _ h
  · simp only [hsorted, hparams, hget, true_and, false_or, ← hall]
    rw [← req.sentBody_eq_nil_iff, ← E.encodedQuery_eq_iff]
    constructor
    · intro h
      have hle := E.length_plain_le_encoded req.sentParams
      have hlen := congrArg List.length h
      rw [List.length_append] at hlen
      have hbody : req.sentBody = [] := List.eq_nil_of_length_eq_zero (by omega)
      exact ⟨hbody, by rw [h, hbody, List.append_nil]⟩
    · rintro ⟨hbody, hquery⟩
      rw [hbody, hquery, List.append_nil]

theorem covers_kucoin_iff (apiKey timestamp : Text) :
    req.Covers E apiKey timestamp .kucoin ↔ req.Plain := by
  simp only [Covers, signed, received, signKucoin, List.append_cancel_left_eq, signPath, sentTarget,
    sentQuery, Plain]
  rcases req.params_cases with ⟨hparams, hsorted, hsent⟩ | ⟨hparams, hget, hsorted, hsent⟩ |
    ⟨hparams, hget, hsorted, hsent, hall⟩
  · simp only [hsorted, hsent, hparams, if_true, List.append_nil, List.append_cancel_left_eq,
      true_or, and_true]
    exact req.bodyStr_eq_sentBody_iff
  · simp only [hsorted, hparams, hget, if_neg hsent, List.append_assoc,
      List.append_cancel_left_eq, Bool.false_eq_true, false_and, or_self, and_false, iff_false]
    exact req.bodyStr_ne_cons (by decide) _
  · simp only [hsorted, hparams, hget, if_neg hsent, List.append_assoc, List.cons_append,
      List.append_cancel_left_eq, List.cons_inj_right, true_and, false_or, ← hall]
    rw [query_append_body_eq_iff]
    exact And.comm

/-- **Exactly the plain requests are covered by their signature.**  This holds at every attempt. -/
theorem covers_iff_plain (apiKey timestamp : Text) (client : RestClient) :
    req.Covers E apiKey timestamp client ↔ req.Plain := by
  cases client with
  | bybit => exact req.covers_bybit_iff E apiKey timestamp
  | kucoin => exact req.covers_kucoin_iff E apiKey timestamp

instance (apiKey timestamp : Text) (client : RestClient) :
    Decidable (req.Covers E apiKey timestamp client) :=
  inferInstanceAs (Decidable (_ = _))

theorem not_covers_of_body {fields : List (String × JsonValue)} (h : req.jsonBody = some fields)
    (apiKey timestamp : Text) (client : RestClient) : ¬ req.Covers E apiKey timestamp client := by
  have hplain : ¬ req.Plain := fun hp => by
    rw [hp.1] at h
    cases h
  cases client with
  | bybit => rwa [covers_bybit_iff]
  | kucoin => rwa [covers_kucoin_iff]

end RestRequest

/-! ### The requests of the clients -/

/-- `str.capitalize`. -/
def capitalize (s : String) : String :=
  match s.toList with
  | [] => ""
  | c :: cs => String.ofList (c.toUpper :: cs.map Char.toLower)

def OrderSide.text : OrderSide → String
  | .buy => "buy"
  | .sell => "sell"

namespace RestClient

section PlaceOrder

-- The texts of numbers, and an id for the requests that have none.
variable (str : ℚ → String) (uuid : String)

def linkId (req : OrderRequest) : String :=
  if req.clientOrderId = "" then uuid else req.clientOrderId

def price (req : OrderRequest) : List (String × JsonValue) :=
  match req.limitPrice with
  | some p => [("price", .str (str p))]
  | none => []

/-- A stop that is triggered when the price rises, for buy orders, or falls. -/
def stop (req : OrderRequest) : List (String × JsonValue) :=
  match req.stopPrice with
  | some p =>
      [("stop", .str (if req.side = .buy then "up" else "down")), ("stopPrice", .str (str p)),
        ("stopPriceType", .str "TP")]
  | none => []

def placeOrder (req : OrderRequest) : RestClient → RestRequest
  | .bybit =>
      { method := "POST", path := "/v5/order/create"
        jsonBody := some ([("category", .str "spot"), ("symbol", .str req.symbol),
          ("side", .str (capitalize req.side.text)),
          ("orderType", .str (capitalize req.orderType)), ("qty", .str (str req.size)),
          ("orderLinkId", .str (linkId uuid req))] ++ price str req) }
  | .kucoin =>
      { method := "POST", path := "/api/v1/orders"
        jsonBody := some ([("clientOid", .str (linkId uuid req)), ("side", .str req.side.text),
          ("symbol", .str req.symbol), ("type", .str req.orderType),
          ("size", .str (str req.size))] ++ price str req ++ stop str req) }

end PlaceOrder

def cancelOrder (orderId symbol : String) : RestClient → RestRequest
  | .bybit =>
      { method := "POST", path := "/v5/order/cancel"
        jsonBody := some [("category", .str "spot"), ("symbol", .str symbol),
          ("orderId", .str orderId)] }
  | .kucoin =>
      { method := "DELETE"
        path := "/api/v1/orders/" ++
          String.ofList (orderId.toList.flatMap QueryEncoder.percent.encodeChar) }

def getOpenOrders (symbol : String) : RestClient → RestRequest
  | .bybit =>
      { method := "GET", path := "/v5/order/realtime"
        params := some [("category", "spot"), ("symbol", symbol)] }
  | .kucoin =>
      { method := "GET", path := "/api/v1/openOrders", params := some [("symbol", symbol)] }

/-- One page; where it starts is a cursor at Bybit, and a number at KuCoin. -/
def getRecentFills (symbol sinceMs page : String) : RestClient → RestRequest
  | .bybit =>
      { method := "GET", path := "/v5/order/history"
        params := some ([("category", "spot"), ("orderStatus", "Filled"), ("startTime", sinceMs),
          ("limit", "50")] ++ (if symbol = "" then [] else [("symbol", symbol)]) ++
          (if page = "" then [] else [("cursor", page)])) }
  | .kucoin =>
      { method := "GET", path := "/api/v1/fills"
        params := some ([("startAt", sinceMs), ("pageSize", "50"), ("currentPage", page)] ++
          (if symbol = "" then [] else [("symbol", symbol)])) }

/-- Only KuCoin has it. -/
def getPrivateWsToken : RestRequest where
  method := "POST"
  path := "/api/v1/bullet-private"
  jsonBody := some []

variable (E : QueryEncoder) (apiKey timestamp : Text)

theorem placeOrder_not_covers (str : ℚ → String) (uuid : String) (req : OrderRequest)
    (client : RestClient) :
    ¬ (client.placeOrder str uuid req).Covers E apiKey timestamp client := by
  cases client <;> exact RestRequest.not_covers_of_body _ E rfl apiKey timestamp _

theorem getOpenOrders_covers_iff (symbol : String) (client : RestClient) :
    (client.getOpenOrders symbol).Covers E apiKey timestamp client ↔
      ∀ c ∈ symbol.toList, unreserved c = true := by
  have hget : (client.getOpenOrders symbol).isGet = true := by
    cases client <;> exact RestRequest.isGet_of_method rfl
  have hsymbol : ∀ c ∈ "symbol".toList, unreserved c = true := List.all_eq_true.mp rfl
  cases client with
  | bybit =>
      have hcategory : (∀ c ∈ "category".toList, unreserved c = true) ∧
          ∀ c ∈ "spot".toList, unreserved c = true :=
        ⟨List.all_eq_true.mp rfl, List.all_eq_true.mp rfl⟩
      rw [RestRequest.covers_bybit_iff, RestRequest.Plain, hget]
      refine ⟨fun h => ?_, fun h => ⟨rfl, .inr ⟨rfl, ?_⟩⟩⟩
      · have hall := h.2.resolve_left (List.cons_ne_nil _ _)
        exact (hall.2 ("symbol", symbol) (List.mem_cons_of_mem _ (List.mem_singleton_self _))).2
      · exact List.forall_mem_cons.mpr ⟨hcategory, List.forall_mem_singleton.mpr ⟨hsymbol, h⟩⟩
  | kucoin =>
      rw [RestRequest.covers_kucoin_iff, RestRequest.Plain, hget]
      refine ⟨fun h => ?_, fun h => ⟨rfl, .inr ⟨rfl, ?_⟩⟩⟩
      · have hall := h.2.resolve_left (List.cons_ne_nil _ _)
        exact (hall.2 ("symbol", symbol) (List.mem_singleton_self _)).2
      · exact List.forall_mem_singleton.mpr ⟨hsymbol, h⟩

/-- KuCoin's token is asked for with an empty object, which is sent but not signed. -/
theorem getPrivateWsToken_not_covers :
    ¬ getPrivateWsToken.Covers .percent ['k'] ['1'] .kucoin := by
  decide

end RestClient

end MagnumOpus.Bot
