import MagnumOpus.Bot.SignedRequests

/-! # The orders in the requests

What the body of a place-order request says, read by the field names of the exchange that it is
sent to (`readOrder`): those that the client itself reads from the open orders, and the fields for
orders that wait for a trigger.

A KuCoin body says all that the order does.  A Bybit body never says that the order waits, so it
says what the order does when there is no stop price (`readOrder_iff`). -/

namespace MagnumOpus.Bot

open JsonDecode

/-- What makes a waiting order go to the market. -/
structure Trigger where
  price : ℚ
  /-- It fires when the price rises to it, not when the price falls. -/
  up : Bool
deriving DecidableEq

/-- What an exchange is to do. -/
structure OrderTerms where
  side : OrderSide
  /-- `"limit"` or `"market"`. -/
  orderType : String
  size : ℚ
  limitPrice : Option ℚ
  /-- An order without one is executed at once. -/
  trigger : Option Trigger
deriving DecidableEq

namespace OrderRequest

def terms (req : OrderRequest) : OrderTerms where
  side := req.side
  orderType := req.orderType
  size := req.size
  limitPrice := req.limitPrice
  -- Stops of buy orders fire when the price rises, those of sell orders when it falls.
  trigger := req.stopPrice.map fun p => ⟨p, decide (req.side = .buy)⟩

/-- The numbers whose texts are sent. -/
def numbers (req : OrderRequest) : List ℚ :=
  (req.size : ℚ) :: (req.limitPrice.toList ++ req.stopPrice.toList)

end OrderRequest

namespace RestClient

section ReadOrder

/-! ### Reading a body -/

variable (parse : String → Option ℚ) (body : List (String × JsonValue))

def readText (key : String) : Option String :=
  match body.lookup key with
  | some (.str s) => some s
  | _ => none

/-- A price that may be absent. -/
def readPrice (key : String) : Option (Option ℚ) :=
  match body.lookup key with
  | none => some none
  | some (.str s) => (parse s).map some
  | some _ => none

def readSide (client : RestClient) : Option OrderSide :=
  (readText body "side").bind fun s =>
    match client with
    | .bybit => [("Buy", .buy), ("Sell", .sell)].lookup s
    | .kucoin => [("buy", .buy), ("sell", .sell)].lookup s

def readType (client : RestClient) : Option String :=
  match client with
  | .bybit => (readText body "orderType").bind fun s =>
      [("Limit", "limit"), ("Market", "market")].lookup s
  | .kucoin => (readText body "type").bind fun s =>
      [("limit", "limit"), ("market", "market")].lookup s

def readSize (client : RestClient) : Option ℚ :=
  match client with
  | .bybit => (readText body "qty").bind parse
  | .kucoin => (readText body "size").bind parse

/-- Bybit takes a trigger price, KuCoin a direction as well. -/
def readTrigger (client : RestClient) (side : OrderSide) : Option (Option Trigger) :=
  match client with
  | .bybit => (readPrice parse body "triggerPrice").map fun price =>
      price.map fun p => ⟨p, decide (side = .buy)⟩
  | .kucoin =>
      if body.lookup "stop" = none then some none
      else (readText body "stop").bind fun direction =>
        (readPrice parse body "stopPrice").map fun price =>
          price.map fun p => ⟨p, decide (direction = "up")⟩

def readOrder (client : RestClient) : Option OrderTerms := do
  let side ← client.readSide body
  let orderType ← client.readType body
  let size ← client.readSize parse body
  let limitPrice ← readPrice parse body "price"
  let trigger ← client.readTrigger parse body side
  return ⟨side, orderType, size, limitPrice, trigger⟩

end ReadOrder

/-! ### What the clients send -/

variable {str : ℚ → String} {parse : String → Option ℚ} {uuid : String} {req : OrderRequest}

/-- A limit price is read back where no other field is called so. -/
theorem readPrice_price {before after : List (String × JsonValue)}
    (hbefore : before.lookup "price" = none) (hafter : after.lookup "price" = none)
    (hstr : ∀ x ∈ req.numbers, parse (str x) = some x) :
    readPrice parse (before ++ price str req ++ after) "price" = some req.limitPrice := by
  rw [readPrice, List.append_assoc, List.lookup_append, hbefore, Option.none_or]
  cases hlimit : req.limitPrice with
  | none => simp [price, hlimit, hafter]
  | some p =>
      have hp : parse (str p) = some p := hstr p (by simp [OrderRequest.numbers, hlimit])
      simp [price, hlimit, hp]

theorem parse_size (hstr : ∀ x ∈ req.numbers, parse (str x) = some x) :
    parse (str req.size) = some (req.size : ℚ) := hstr _ List.mem_cons_self

theorem readText_of_lookup {body : List (String × JsonValue)} {key s : String}
    (h : body.lookup key = some (.str s)) : readText body key = some s := by
  simp only [readText, h]

theorem readOrder_of_fields {client : RestClient} {body : List (String × JsonValue)}
    {terms : OrderTerms} (hside : client.readSide body = some terms.side)
    (htype : client.readType body = some terms.orderType)
    (hsize : client.readSize parse body = some terms.size)
    (hprice : readPrice parse body "price" = some terms.limitPrice)
    (htrigger : client.readTrigger parse body terms.side = some terms.trigger) :
    client.readOrder parse body = some terms := by
  rw [readOrder, hside, htype, hsize, hprice]
  simp only [Option.bind_eq_bind, Option.bind_some, htrigger]
  rfl

theorem readOrder_bybit (hstr : ∀ x ∈ req.numbers, parse (str x) = some x)
    (htype : req.orderType ∈ ["limit", "market"]) :
    (bybit.placeOrder str uuid req).jsonBody.bind (bybit.readOrder parse) =
      some { req.terms with trigger := none } := by
  obtain ⟨body, hbody⟩ : ∃ body, (bybit.placeOrder str uuid req).jsonBody = some body :=
    ⟨_, rfl⟩
  have hsent := Option.some.inj hbody
  have hside : bybit.readSide body = some req.side := by
    rw [readSide, readText_of_lookup (s := capitalize req.side.text) (by subst hsent; rfl)]
    cases req.side <;> decide
  have horder : bybit.readType body = some req.orderType := by
    rw [readType, readText_of_lookup (s := capitalize req.orderType) (by subst hsent; rfl)]
    rcases List.mem_pair.mp htype with hlimit | hmarket
    · rw [hlimit]
      decide
    · rw [hmarket]
      decide
  have hsize : bybit.readSize parse body = some (req.size : ℚ) := by
    rw [readSize, readText_of_lookup (s := str req.size) (by subst hsent; rfl)]
    exact parse_size hstr
  have hprice : readPrice parse body "price" = some req.limitPrice := by
    subst hsent
    rw [← List.append_nil (_ ++ price str req)]
    exact readPrice_price rfl rfl hstr
  have htrigger : bybit.readTrigger parse body req.side = some none := by
    have hnone : body.lookup "triggerPrice" = none := by
      subst hsent
      cases hlimit : req.limitPrice <;> simp [price, hlimit, List.lookup_cons]
    simp only [readTrigger, readPrice, hnone]
    rfl
  rw [hbody, Option.bind_some]
  exact readOrder_of_fields hside horder hsize hprice htrigger

theorem readOrder_kucoin (hstr : ∀ x ∈ req.numbers, parse (str x) = some x)
    (htype : req.orderType ∈ ["limit", "market"]) :
    (kucoin.placeOrder str uuid req).jsonBody.bind (kucoin.readOrder parse) =
      some req.terms := by
  obtain ⟨body, hbody⟩ : ∃ body, (kucoin.placeOrder str uuid req).jsonBody = some body :=
    ⟨_, rfl⟩
  have hsent := Option.some.inj hbody
  have hside : kucoin.readSide body = some req.side := by
    rw [readSide, readText_of_lookup (s := req.side.text) (by subst hsent; rfl)]
    cases req.side <;> decide
  have horder : kucoin.readType body = some req.orderType := by
    rw [readType, readText_of_lookup (s := req.orderType) (by subst hsent; rfl)]
    rcases List.mem_pair.mp htype with hlimit | hmarket
    · rw [hlimit]
      decide
    · rw [hmarket]
      decide
  have hsize : kucoin.readSize parse body = some (req.size : ℚ) := by
    rw [readSize, readText_of_lookup (s := str req.size) (by subst hsent; rfl)]
    exact parse_size hstr
  have hprice : readPrice parse body "price" = some req.limitPrice := by
    subst hsent
    refine readPrice_price rfl ?_ hstr
    cases hstop : req.stopPrice <;> simp [stop, hstop, List.lookup_cons]
  have htrigger : kucoin.readTrigger parse body req.side = some req.terms.trigger := by
    have hskip : ∀ key, key ∈ ["stop", "stopPrice"] →
        body.lookup key = (stop str req).lookup key := by
      intro key hkey
      subst hsent
      rcases List.mem_pair.mp hkey with rfl | rfl <;>
        cases hlimit : req.limitPrice <;> simp [price, hlimit, List.lookup_cons]
    rw [readTrigger, readText, readPrice, hskip "stop" (by decide), hskip "stopPrice" (by decide)]
    cases hstop : req.stopPrice with
    | none => simp [stop, hstop, OrderRequest.terms]
    | some p =>
        have hp : parse (str p) = some p := hstr p (by simp [OrderRequest.numbers, hstop])
        cases hside : req.side <;>
          simp [stop, hstop, hside, List.lookup_cons, hp, OrderRequest.terms]
  rw [hbody, Option.bind_some]
  exact readOrder_of_fields hside horder hsize hprice htrigger

/-- **What a request says of an order.**  It says all of it at KuCoin, and at Bybit when the order
does not wait for a price. -/
theorem readOrder_iff (client : RestClient)
    (hstr : ∀ x ∈ req.numbers, parse (str x) = some x)
    (htype : req.orderType ∈ ["limit", "market"]) :
    (client.placeOrder str uuid req).jsonBody.bind (client.readOrder parse) = some req.terms ↔
      client = kucoin ∨ req.stopPrice = none := by
  cases client with
  | kucoin => exact iff_of_true (readOrder_kucoin hstr htype) (.inl rfl)
  | bybit =>
      rw [readOrder_bybit hstr htype, Option.some.injEq]
      constructor
      · intro h
        have htrigger : none = req.terms.trigger := congrArg OrderTerms.trigger h
        exact .inr (Option.map_eq_none_iff.mp htrigger.symm)
      · intro h
        have hstop : req.stopPrice = none := h.resolve_left (by decide)
        simp [OrderRequest.terms, hstop]

/-! ### A protective stop -/

/-- A market order that sells a tenth when the price falls to 45000. -/
def protectiveStop : OrderRequest where
  strategy := "s"
  exchange := "bybit"
  symbol := "BTCUSDT"
  side := .sell
  orderType := "market"
  orderRole := .stop
  size := .divNat 1 10
  stopPrice := some (mkRat 45000 1)

/-- The texts of its two numbers. -/
def stopText (x : ℚ) : String := if x = (protectiveStop.size : ℚ) then "0.1" else "45000.0"

def parseStopText (s : String) : Option ℚ :=
  if s = "0.1" then some protectiveStop.size
  else if s = "45000.0" then protectiveStop.stopPrice else none

theorem parse_stopText : ∀ x ∈ protectiveStop.numbers, parseStopText (stopText x) = some x := by
  decide +kernel

theorem readOrder_protectiveStop :
    (kucoin.placeOrder stopText "u" protectiveStop).jsonBody.bind
      (kucoin.readOrder parseStopText) = some protectiveStop.terms :=
  (readOrder_iff kucoin parse_stopText (by decide)).mpr (.inl rfl)

/-- Bybit is told to sell at once. -/
theorem not_readOrder_protectiveStop : ¬ ∀ (client : RestClient) (str : ℚ → String)
    (parse : String → Option ℚ) (uuid : String) (req : OrderRequest),
    (∀ x ∈ req.numbers, parse (str x) = some x) → req.orderType ∈ ["limit", "market"] →
      (client.placeOrder str uuid req).jsonBody.bind (client.readOrder parse) =
        some req.terms := by
  intro h
  have hread := h bybit stopText parseStopText "u" protectiveStop parse_stopText (by decide)
  have hsold : (bybit.placeOrder stopText "u" protectiveStop).jsonBody.bind
      (bybit.readOrder parseStopText) = some { protectiveStop.terms with trigger := none } :=
    readOrder_bybit parse_stopText (by decide)
  have hterms := Option.some.inj (hsold.symm.trans hread)
  exact absurd (congrArg OrderTerms.trigger hterms) (by decide +kernel)

end RestClient

end MagnumOpus.Bot
