import MagnumOpus.Gateway.Hub
import MagnumOpus.Lib.LatestBy

/-!
# Where a delivered frame comes from

Over any history of calls the hub's two tables reflect it: a symbol's subscribers are the clients
that asked for it last, and a snapshot is the frame of the last book published for its symbol
(`Reflects`).  So every frame a client gets is made from one publication for the symbol it
subscribed to, and every publication reaches all subscribers with room
(`hub_routes_by_symbol`).  Of which exchange the publication is plays no part.
-/

namespace MagnumOpus
namespace Gateway

open EventMachine

section history

variable {N : Floats} {C : Type}

/-- The publication is an order book. -/
def Publication.isBook : Publication → Bool
  | .orderbook _ _ _ _ _ => true
  | .candle _ _ _ => false

/-- The call publishes a book that can be encoded. -/
def bookOf (N : Floats) (e : Event C) : Option Publication :=
  match e.act with
  | .publish p => if p.isBook ∧ (p.frame N).isSome then some p else none
  | _ => none

/-- The last book published for a symbol. -/
def lastBook (N : Floats) (hist : List (Event C)) (symbol : String) : Option Publication :=
  LatestBy.latest Publication.symbol (hist.filterMap (bookOf N)) symbol

/-- The publication that a frame sent by a call for a symbol is made from. -/
def origin (N : Floats) (hist : List (Event C)) (e : Event C) (symbol : String) :
    Option Publication :=
  match e.act with
  | .publish p => some p
  | .subscribe _ _ => lastBook N hist symbol
  | _ => none

theorem lastBook_append (hist : List (Event C)) (e : Event C) (symbol : String) :
    lastBook N (hist ++ [e]) symbol = match bookOf N e with
      | none => lastBook N hist symbol
      | some p => if p.symbol = symbol then some p else lastBook N hist symbol := by
  unfold lastBook
  cases hbook : bookOf N e with
  | none => simp [List.filterMap_append, hbook]
  | some p =>
      rw [List.filterMap_append, List.filterMap_cons_some hbook, List.filterMap_nil]
      exact LatestBy.latest_append_singleton _ _ _

theorem bookOf_eq_some {e : Event C} {p : Publication} (h : bookOf N e = some p) :
    e.act = .publish p ∧ p.isBook = true := by
  unfold bookOf at h
  split at h
  · split_ifs at h with hp
    cases h
    exact ⟨by assumption, hp.1⟩
  · cases h

theorem published_of_lastBook {hist : List (Event C)} {symbol : String} {p : Publication}
    (h : lastBook N hist symbol = some p) :
    (∃ full, ⟨.publish p, full⟩ ∈ hist) ∧ p.isBook = true := by
  have hmem : p ∈ hist.filterMap (bookOf N) :=
    List.mem_reverse.1 (List.mem_of_find?_eq_some h)
  obtain ⟨⟨act, full⟩, he, hbook⟩ := List.mem_filterMap.1 hmem
  obtain ⟨hact, hp⟩ := bookOf_eq_some hbook
  exact ⟨⟨full, hact ▸ he⟩, hp⟩

theorem symbol_of_lastBook {hist : List (Event C)} {symbol : String} {p : Publication}
    (h : lastBook N hist symbol = some p) : p.symbol = symbol := LatestBy.key_of_latest h

variable [DecidableEq C]

/-- Whether a client is subscribed to a symbol after a call. -/
def subscribedAfter (c : C) (symbol : String) (before : Bool) (e : Event C) : Bool :=
  match e.act with
  | .subscribe c' symbol' => if c' = c ∧ symbol' = symbol then true else before
  | .unsubscribe c' symbol' => if c' = c ∧ symbol' = symbol then false else before
  | .unregister c' => if c' = c then false else before
  | _ => before

/-- The client asked for the symbol and has not left it since. -/
def subscribed (hist : List (Event C)) (c : C) (symbol : String) : Bool :=
  hist.foldl (subscribedAfter c symbol) false

/-- The hub after a history. -/
def hubAfter (N : Floats) (hist : List (Event C)) : Hub N C := final Hub.step Hub.new hist

/-- What a call sends after a history. -/
def sentBy (N : Floats) (hist : List (Event C)) (e : Event C) : List (Sent N C) :=
  (Hub.step (hubAfter N hist) e).2

/-- The hub's tables reflect the history. -/
structure Reflects (hist : List (Event C)) (h : Hub N C) : Prop where
  mem_bySymbol : ∀ symbol c, c ∈ h.bySymbol symbol ↔ subscribed hist c symbol = true
  nodup : ∀ symbol, (h.bySymbol symbol).Nodup
  lastSnap : ∀ symbol frame, h.lastSnap symbol = some frame →
    ∃ p, lastBook N hist symbol = some p ∧ p.frame N = some frame

theorem subscribed_append (hist : List (Event C)) (e : Event C) (c : C) (symbol : String) :
    subscribed (hist ++ [e]) c symbol = subscribedAfter c symbol (subscribed hist c symbol) e := by
  unfold subscribed
  rw [List.foldl_append]
  rfl

/-! ### Routing a publication -/

theorem call_publish (h : Hub N C) (p : Publication) :
    h.call (.publish p) = h.route p.channel p.payload := rfl

theorem route_orderbook (h : Hub N C) (exch : Exchange) (raw : String) (tsNs : Int64)
    (bids asks : List (List String)) :
    h.call (.publish (.orderbook exch raw tsNs bids asks))
      = h.routeOrderbook (Aggregator.normalize exch.name raw)
          (Publication.orderbook exch raw tsNs bids asks).payload := by
  rw [call_publish]
  unfold Hub.route
  rw [splitChannel_channel]
  rfl

theorem route_candle (h : Hub N C) (exch : Exchange) (symbol : String)
    (features : Features) :
    h.call (.publish (.candle exch symbol features))
      = (h, h.routeCandles1s symbol (Publication.candle exch symbol features).payload) := by
  rw [call_publish]
  unfold Hub.route
  rw [splitChannel_channel]
  have hkind : ¬ (Publication.candle exch symbol features).kind = "orderbook" := by
    show ¬ "candles1s" = "orderbook"
    decide
  simp only [if_neg hkind]
  rfl

theorem call_publish_sent (h : Hub N C) (p : Publication) :
    (h.call (.publish p)).2 = match p.frame N with
      | none => []
      | some frame => h.toSubscribers p.symbol frame := by
  cases p with
  | orderbook exch raw tsNs bids asks =>
      rw [route_orderbook]
      unfold Hub.routeOrderbook
      cases hframe : encodeBinary N (Publication.orderbook exch raw tsNs bids asks).payload with
      | none => simp [Publication.frame, hframe]
      | some frame => simp [Publication.frame, hframe, Publication.symbol]
  | candle exch symbol features =>
      rw [route_candle]
      rfl

theorem call_publish_bySymbol (h : Hub N C) (p : Publication) :
    (h.call (.publish p)).1.bySymbol = h.bySymbol := by
  cases p with
  | orderbook exch raw tsNs bids asks =>
      rw [route_orderbook]
      unfold Hub.routeOrderbook
      split <;> rfl
  | candle exch symbol features =>
      rw [route_candle]

theorem call_publish_lastSnap (h : Hub N C) (p : Publication) (full : C → Bool)
    (symbol : String) :
    (h.call (.publish p)).1.lastSnap symbol = match bookOf N ⟨.publish p, full⟩ with
      | none => h.lastSnap symbol
      | some q => if q.symbol = symbol then q.frame N else h.lastSnap symbol := by
  cases p with
  | orderbook exch raw tsNs bids asks =>
      rw [route_orderbook]
      unfold Hub.routeOrderbook
      cases hframe : encodeBinary N (Publication.orderbook exch raw tsNs bids asks).payload with
      | none => simp [bookOf, Publication.frame, hframe]
      | some frame =>
          simp only [bookOf, Publication.isBook, Publication.frame, hframe, Option.isSome_some,
            and_self, if_true, Publication.symbol]
          rw [Function.update_apply]
          simp only [eq_comm]
  | candle exch symbol' features =>
      rw [route_candle]
      simp [bookOf, Publication.isBook]

/-! ### The tables reflect the history -/

theorem reflects_new : Reflects [] (Hub.new : Hub N C) where
  mem_bySymbol := by
    intro symbol c
    simp [Hub.new, subscribed]
  nodup _ := List.nodup_nil
  lastSnap := by
    intro symbol frame h
    cases h

section steps

variable {hist : List (Event C)} {h : Hub N C} {full : C → Bool}

/-- A snapshot that was there stays right as long as no book is published. -/
theorem Reflects.lastSnap_of_none (hr : Reflects hist h) {e : Event C} (he : bookOf N e = none)
    {symbol : String} {frame : Frame N} (hsnap : h.lastSnap symbol = some frame) :
    ∃ p, lastBook N (hist ++ [e]) symbol = some p ∧ p.frame N = some frame := by
  rw [lastBook_append, he]
  exact hr.lastSnap symbol frame hsnap

theorem Reflects.unregister (hr : Reflects hist h) (c : C) :
    Reflects (hist ++ [⟨.unregister c, full⟩]) (h.unregisterSender c) where
  mem_bySymbol := by
    intro symbol c'
    rw [subscribed_append]
    have hmem : c' ∈ (h.unregisterSender c).bySymbol symbol ↔ c' ≠ c ∧ c' ∈ h.bySymbol symbol :=
      (hr.nodup symbol).mem_erase_iff
    rw [hmem, hr.mem_bySymbol]
    by_cases hc : c = c'
    · simp [subscribedAfter, hc]
    · simp [subscribedAfter, hc, Ne.symm hc]
  nodup symbol := (hr.nodup symbol).erase c
  lastSnap := by
    intro symbol frame hsnap
    unfold Hub.unregisterSender at hsnap
    simp only at hsnap
    split_ifs at hsnap
    exact hr.lastSnap_of_none rfl hsnap

theorem Reflects.subscribe (hr : Reflects hist h) (c : C) (S : String) :
    Reflects (hist ++ [⟨.subscribe c S, full⟩]) (h.subscribe c S).1 where
  mem_bySymbol := by
    intro symbol c'
    rw [subscribed_append]
    unfold Hub.subscribe
    simp only [Function.update_apply]
    by_cases hS : symbol = S
    · rw [if_pos hS, List.mem_insert_iff, hr.mem_bySymbol, hS]
      by_cases hc : c = c'
      · simp [subscribedAfter, hc]
      · simp [subscribedAfter, hc, Ne.symm hc]
    · rw [if_neg hS, hr.mem_bySymbol]
      simp [subscribedAfter, Ne.symm hS]
  nodup := by
    intro symbol
    unfold Hub.subscribe
    simp only [Function.update_apply]
    split_ifs
    · exact (hr.nodup S).insert
    · exact hr.nodup symbol
  lastSnap _ _ hsnap := hr.lastSnap_of_none rfl hsnap

theorem Reflects.unsubscribe (hr : Reflects hist h) (c : C) (S : String) :
    Reflects (hist ++ [⟨.unsubscribe c S, full⟩]) (h.unsubscribe c S) := by
  unfold Hub.unsubscribe
  by_cases hempty : h.bySymbol S = []
  · -- no entry for the symbol, so the client was not subscribed to it
    rw [if_pos hempty]
    refine ⟨?_, hr.nodup, fun _ _ hsnap => hr.lastSnap_of_none rfl hsnap⟩
    intro symbol c'
    rw [subscribed_append, hr.mem_bySymbol]
    by_cases hcS : c = c' ∧ S = symbol
    · obtain ⟨rfl, rfl⟩ := hcS
      have hnot : subscribed hist c S ≠ true := by
        rw [ne_eq, ← hr.mem_bySymbol, hempty]
        exact List.not_mem_nil
      simp [subscribedAfter, hnot]
    · simp [subscribedAfter, hcS]
  · rw [if_neg hempty]
    refine ⟨?_, ?_, ?_⟩
    · intro symbol c'
      rw [subscribed_append]
      simp only [Function.update_apply]
      by_cases hS : symbol = S
      · rw [if_pos hS, (hr.nodup S).mem_erase_iff, hr.mem_bySymbol, hS]
        by_cases hc : c = c'
        · simp [subscribedAfter, hc]
        · simp [subscribedAfter, hc, Ne.symm hc]
      · rw [if_neg hS, hr.mem_bySymbol]
        simp [subscribedAfter, Ne.symm hS]
    · intro symbol
      simp only [Function.update_apply]
      split_ifs
      · exact (hr.nodup S).erase c
      · exact hr.nodup symbol
    · intro symbol frame hsnap
      apply hr.lastSnap_of_none rfl
      simp only at hsnap
      split_ifs at hsnap
      · rw [Function.update_apply] at hsnap
        split_ifs at hsnap
        exact hsnap
      · exact hsnap

theorem Reflects.publish (hr : Reflects hist h) (p : Publication) :
    Reflects (hist ++ [⟨.publish p, full⟩]) (h.call (.publish p)).1 where
  mem_bySymbol := by
    intro symbol c
    rw [subscribed_append, call_publish_bySymbol]
    exact hr.mem_bySymbol symbol c
  nodup := by
    intro symbol
    rw [call_publish_bySymbol]
    exact hr.nodup symbol
  lastSnap := by
    intro symbol frame hsnap
    rw [call_publish_lastSnap h p full] at hsnap
    rw [lastBook_append]
    cases hbook : bookOf N ⟨.publish p, full⟩ with
    | none =>
        rw [hbook] at hsnap
        exact hr.lastSnap symbol frame hsnap
    | some q =>
        rw [hbook] at hsnap
        simp only at hsnap ⊢
        split_ifs at hsnap ⊢
        · exact ⟨q, rfl, hsnap⟩
        · exact hr.lastSnap symbol frame hsnap

theorem Reflects.step (hr : Reflects hist h) (e : Event C) :
    Reflects (hist ++ [e]) (Hub.step h e).1 := by
  obtain ⟨act, full⟩ := e
  cases act with
  | register c =>
      refine ⟨?_, hr.nodup, fun _ _ hsnap => hr.lastSnap_of_none rfl hsnap⟩
      intro symbol c'
      rw [subscribed_append]
      exact hr.mem_bySymbol symbol c'
  | unregister c => exact hr.unregister c
  | subscribe c S => exact hr.subscribe c S
  | unsubscribe c S => exact hr.unsubscribe c S
  | publish p => exact hr.publish p

end steps

theorem reflects_hubAfter (hist : List (Event C)) : Reflects hist (hubAfter N hist) := by
  induction hist using List.reverseRecOn with
  | nil => exact reflects_new
  | append_singleton hist e ih =>
      have hlast : hubAfter N (hist ++ [e]) = (Hub.step (hubAfter N hist) e).1 := by
        unfold hubAfter
        rw [final_append, final_cons, final_nil]
      rw [hlast]
      exact ih.step e

/-! ### What is delivered -/

/-- The frame `d` that a call sends is made from the publication `p`. -/
structure Stems (hist : List (Event C)) (e : Event C) (d : Sent N C) (p : Publication) :
    Prop where
  origin : origin N hist e d.symbol = some p
  published : ∃ full, ⟨.publish p, full⟩ ∈ hist ++ [e]
  symbol : p.symbol = d.symbol
  frame : p.frame N = some d.frame
  subscribed : subscribed (hist ++ [e]) d.client d.symbol = true
  named : p.isBook = false → d.frame.exchange = some p.exchange.name

theorem named_of_frame {p : Publication} {frame : Frame N} (h : p.frame N = some frame)
    (hp : p.isBook = false) : frame.exchange = some p.exchange.name := by
  cases p with
  | orderbook exch raw tsNs bids asks => cases hp
  | candle exch symbol features => exact exchange_of_candle h

theorem stems_of_publish {hist : List (Event C)} {p : Publication} {full : C → Bool}
    {d : Sent N C} (h : d ∈ ((hubAfter N hist).call (.publish p)).2) :
    Stems hist ⟨.publish p, full⟩ d p := by
  rw [call_publish_sent] at h
  cases hframe : p.frame N with
  | none =>
      rw [hframe] at h
      cases h
  | some frame =>
      rw [hframe] at h
      obtain ⟨c, hc, rfl⟩ := List.mem_map.1 h
      refine ⟨rfl, ⟨full, by simp⟩, rfl, hframe, ?_, named_of_frame hframe⟩
      rw [subscribed_append]
      exact ((reflects_hubAfter hist).mem_bySymbol _ _).1 hc

/-- A snapshot sent on subscribing is made from the last book of the symbol. -/
theorem stems_of_subscribe {hist : List (Event C)} {c : C} {S : String} {full : C → Bool}
    {d : Sent N C} (h : d ∈ ((hubAfter N hist).call (.subscribe c S)).2) :
    ∃ p, Stems hist ⟨.subscribe c S, full⟩ d p := by
  obtain ⟨snap, hsnap, rfl⟩ := Option.map_eq_some_iff.1 (Option.mem_toList.1 h)
  obtain ⟨p, hp, hframe⟩ := (reflects_hubAfter hist).lastSnap S snap hsnap
  obtain ⟨⟨full', hmem⟩, hbook⟩ := published_of_lastBook hp
  refine ⟨p, hp, ⟨full', List.mem_append_left _ hmem⟩, symbol_of_lastBook hp, hframe, ?_, ?_⟩
  · rw [subscribed_append]
    simp [subscribedAfter]
  · intro hnot
    rw [hbook] at hnot
    cases hnot

theorem stems_of_sent {hist : List (Event C)} {e : Event C} {d : Sent N C}
    (h : d ∈ sentBy N hist e) : ∃ p, Stems hist e d p := by
  obtain ⟨act, full⟩ := e
  have hcall : d ∈ ((hubAfter N hist).call act).2 := List.mem_of_mem_filter h
  cases act with
  | register c => cases hcall
  | unregister c => cases hcall
  | subscribe c S => exact stems_of_subscribe hcall
  | unsubscribe c S => cases hcall
  | publish p => exact ⟨p, stems_of_publish hcall⟩

/-- A publication reaches a subscriber of its symbol, whatever its exchange. -/
theorem sent_of_subscribed {hist : List (Event C)} {e : Event C} {p : Publication}
    {frame : Frame N} {c : C} (he : e.act = .publish p) (hframe : p.frame N = some frame)
    (hsub : subscribed hist c p.symbol = true) (hroom : e.full c = false) :
    ⟨c, p.symbol, frame⟩ ∈ sentBy N hist e := by
  have hmem : c ∈ (hubAfter N hist).bySymbol p.symbol :=
    ((reflects_hubAfter hist).mem_bySymbol _ _).2 hsub
  unfold sentBy Hub.step
  rw [he, call_publish_sent, hframe, List.mem_filter]
  exact ⟨List.mem_map_of_mem hmem, by simp [hroom]⟩

/-- After any history, what a call delivers is made from one publication for the symbol, and a
publication goes to all subscribers of its symbol with room. -/
theorem hub_routes_by_symbol (N : Floats) (hist : List (Event C)) (e : Event C) :
    (∀ d ∈ sentBy N hist e, ∃ p, Stems hist e d p) ∧
    (∀ p frame c, e.act = .publish p → p.frame N = some frame →
      subscribed hist c p.symbol = true → e.full c = false →
      ⟨c, p.symbol, frame⟩ ∈ sentBy N hist e) :=
  ⟨fun _ hd => stems_of_sent hd, fun _ _ _ => sent_of_subscribed⟩

end history

/-! ### Two exchanges list one symbol -/

section apart

variable {C : Type} [DecidableEq C]

/-- A call of the run sends `d`, made from `p`. -/
def Delivered (N : Floats) (run : List (Event C)) (d : Sent N C) (p : Publication) : Prop :=
  ∃ hist e rest, run = hist ++ e :: rest ∧ d ∈ sentBy N hist e ∧
    origin N hist e d.symbol = some p

/-- What a client gets for a symbol is of one exchange. -/
def OneExchange (N : Floats) (run : List (Event C)) : Prop :=
  ∀ d d' p p', Delivered N run d p → Delivered N run d' p' → d.client = d'.client →
    d.symbol = d'.symbol → p.exchange.name = p'.exchange.name

/-- The exchange can be read off what is delivered. -/
def Identifiable (N : Floats) (run : List (Event C)) : Prop :=
  ∃ read : Frame N → String, ∀ d p, Delivered N run d p → read d.frame = p.exchange.name

theorem delivered_of_subscribed {N : Floats} {hist rest : List (Event C)} {p : Publication}
    {full : C → Bool} {frame : Frame N} {c : C} (hframe : p.frame N = some frame)
    (hsub : subscribed hist c p.symbol = true) (hroom : full c = false) :
    Delivered N (hist ++ ⟨.publish p, full⟩ :: rest) ⟨c, p.symbol, frame⟩ p :=
  ⟨hist, _, rest, rfl, sent_of_subscribed rfl hframe hsub hroom, rfl⟩

end apart

/-- Numbers without a fraction. -/
def Floats.whole : Floats where
  F64 := Int64
  F32 := Int64
  parseFloat text := (Strconv.readInt text).toOption
  toFloat32 x := x
  float64 x := x

def kucoin : Exchange := ⟨"kucoin", by decide⟩

def bybit : Exchange := ⟨"bybit", by decide⟩

/-- A book of one level a side. -/
def thinBook (exch : Exchange) (raw : String) : Publication :=
  .orderbook exch raw 1700000000 [["100", "1"]] [["101", "2"]]

/-- A client subscribes to `BTC-USDT`, which both exchanges publish. -/
def bothListings : List (Event ℕ) :=
  [⟨.subscribe 0 "BTC-USDT", fun _ => false⟩,
   ⟨.publish (thinBook kucoin "BTC-USDT"), fun _ => false⟩,
   ⟨.publish (thinBook bybit "BTCUSDT"), fun _ => false⟩]

theorem symbol_kucoin : (thinBook kucoin "BTC-USDT").symbol = "BTC-USDT" := by decide

theorem symbol_bybit : (thinBook bybit "BTCUSDT").symbol = "BTC-USDT" := by decide

/-- The frame of a thin book. -/
def thinFrame : Frame Floats.whole :=
  .snapshot (Floats.whole.float64 1700000000) (parseLevels Floats.whole [["100", "1"]])
    (parseLevels Floats.whole [["101", "2"]])

theorem frame_thinBook (exch : Exchange) (raw : String) :
    (thinBook exch raw).frame Floats.whole = some thinFrame := by
  unfold thinBook
  rw [frame_of_depth]
  · rfl
  · decide
  · decide

theorem both_listings_delivered :
    ∃ d, Delivered Floats.whole bothListings d (thinBook kucoin "BTC-USDT") ∧
      Delivered Floats.whole bothListings d (thinBook bybit "BTCUSDT") := by
  refine ⟨⟨0, "BTC-USDT", thinFrame⟩, ?_, ?_⟩
  · have hrun : bothListings = bothListings.take 1 ++ ⟨.publish (thinBook kucoin "BTC-USDT"),
        fun _ => false⟩ :: bothListings.drop 2 := rfl
    rw [← symbol_kucoin, hrun]
    exact delivered_of_subscribed (frame_thinBook _ _) (by decide) rfl
  · have hrun : bothListings = bothListings.take 2 ++ ⟨.publish (thinBook bybit "BTCUSDT"),
        fun _ => false⟩ :: [] := rfl
    rw [← symbol_bybit, hrun]
    exact delivered_of_subscribed (frame_thinBook _ _) (by decide) rfl

/-- The exchanges are not kept apart. -/
theorem both_listings_mixed :
    ¬ OneExchange Floats.whole bothListings ∧ ¬ Identifiable Floats.whole bothListings := by
  obtain ⟨d, hkucoin, hbybit⟩ := both_listings_delivered
  have hnames : kucoin.name ≠ bybit.name := by decide
  constructor
  · intro hone
    exact hnames (hone d d _ _ hkucoin hbybit rfl rfl)
  · rintro ⟨read, hread⟩
    exact hnames ((hread d _ hkucoin).symm.trans (hread d _ hbybit))

end Gateway
end MagnumOpus
