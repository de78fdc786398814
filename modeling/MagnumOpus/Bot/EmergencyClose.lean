import MagnumOpus.Bot.RestRetry
import MagnumOpus.Lib.EventMachine
import MagnumOpus.Lib.KeyedSum

/-! # Emergency close

When the bus is silent, `_on_bus_timeout` (`strategy/base.py`) starts a thread for each open
position, and `_emergency_close_symbol` sells it at the market until `place_order` returns.

* **Threads.** The poll works from a copy of the open positions and marks a symbol as in flight
  before it starts a closer; a closer removes the position and takes the mark away when it is done.
  The threads take their turns in any order (`Event`).
* **Requests.** A closer makes a new request with a new id after every failure, and each request is
  tried four times (`attempt`).
* **Selling once.** No position is sold twice when no order is executed whose answer does not get
  through, and when no symbol is marked whose position has been removed since the copy was made
  (`Heeds`, `sellsOnce_of_heeds`).  Without either condition it is sold again. -/

namespace MagnumOpus.Bot.EmergencyClose

open EventMachine KeyedSum

structure Strategy where
  name : String
  exchange : String
  closeOnBusTimeout : Bool
  hasExchangeClient : Bool
  paperTrading : Bool

/-- What the poll thread is at. -/
inductive Poll where
  | sleeping
  /-- Symbols and quantities of the copy that are left. -/
  | closing (rest : List (String × ℚ≥0))
  /-- The symbol has been marked, and its closer is about to be started. -/
  | starting (symbol : String) (qty : ℚ≥0) (rest : List (String × ℚ≥0))
deriving DecidableEq

/-- What a closer is at. -/
inductive CloseStage where
  /-- At the top of the loop. -/
  | ready
  /-- In `place_order`, with a client order id and the retries that are left. -/
  | requesting (id : String) (retries : ℕ)
  /-- `place_order` has returned. -/
  | placed
  /-- After an exception. -/
  | sleeping
  /-- The mark is about to be taken away. -/
  | releasing
deriving DecidableEq

structure Closer where
  symbol : String
  qty : ℚ≥0
  stage : CloseStage
deriving DecidableEq

structure State where
  openPositions : Entries String ℚ≥0
  inFlight : List String
  poll : Poll
  /-- The closers that run. -/
  closers : ℕ → Option Closer
  executed : Executed
  /-- The sales that the exchange has executed, latest first. -/
  sold : List (String × ℚ≥0)

inductive Event where
  /-- The poll finds the bus silent, or not. -/
  | poll (silent : Bool)
  /-- The poll turns to the next symbol of its copy. -/
  | next
  /-- The thread of a closer starts. -/
  | start (k : ℕ)
  /-- A closer goes on; `uuid` is the id of the request that it makes. -/
  | turn (k : ℕ) (uuid : String)
  /-- A request of a closer is tried. -/
  | attempt (k : ℕ) (a : Attempt)

/-! ### Steps -/

def closeRequest (g : Strategy) (c : Closer) : OrderRequest where
  strategy := g.name
  exchange := g.exchange
  symbol := c.symbol
  side := .sell
  orderType := "market"
  orderRole := .exit
  size := c.qty

namespace State

def setCloser (s : State) (k : ℕ) (c : Option Closer) : State :=
  { s with closers := Function.update s.closers k c }

/-- The poll of a silent bus. -/
def onBusTimeout (g : Strategy) (s : State) : State :=
  if g.closeOnBusTimeout ∧ g.hasExchangeClient then
    { s with poll := .closing (s.openPositions.entries.map fun e => (e.1, e.2)) }
  else s

/-- A symbol of the copy: without a quantity, or in flight already, it is passed over. -/
def closeNext (s : State) (symbol : String) (qty : ℚ≥0) (rest : List (String × ℚ≥0)) : State :=
  if qty ≤ 0 ∨ symbol ∈ s.inFlight then { s with poll := .closing rest }
  else { s with poll := .starting symbol qty rest, inFlight := symbol :: s.inFlight }

/-- From one statement of a closer to the next. -/
def turn (g : Strategy) (s : State) (k : ℕ) (c : Closer) (uuid : String) :
    State × List OrderRequest :=
  match c.stage with
  | .ready =>
      let req := closeRequest g c
      let id := RestClient.linkId uuid req
      (s.setCloser k (some { c with stage := .requesting id retryDelays.length }), [req])
  | .requesting _ _ => (s, [])
  | .placed =>
      ({ s with openPositions := s.openPositions.erase c.symbol }.setCloser k
        (some { c with stage := .releasing }), [])
  | .sleeping => (s.setCloser k (some { c with stage := .ready }), [])
  | .releasing =>
      ({ s with inFlight := s.inFlight.filter (· ≠ c.symbol) }.setCloser k none, [])

/-- The exchange executes the order of an attempt. -/
def executes (x : Executed) (id : String) (a : Attempt) : Bool :=
  a.received && (serve x id a.orderId).2.isSome

/-- What a closer is at after an attempt. -/
def afterAttempt (id : String) (retries : ℕ) : Option RequestResult → CloseStage
  | some (.orderId _) => .placed
  | some _ => .sleeping
  | none =>
      match retries with
      | 0 => .sleeping
      | n + 1 => .requesting id n

def tryRequest (s : State) (k : ℕ) (c : Closer) (id : String) (retries : ℕ) (a : Attempt) : State :=
  let tried := attempt s.executed id a
  { s with
    executed := tried.1
    sold := if executes s.executed id a then (c.symbol, c.qty) :: s.sold else s.sold }.setCloser k
      (some { c with stage := afterAttempt id retries tried.2 })

end State

def step (g : Strategy) : Step State Event OrderRequest := fun s e =>
  match e with
  | .poll silent =>
      match s.poll with
      | .sleeping => (if silent then s.onBusTimeout g else s, [])
      | _ => (s, [])
  | .next =>
      match s.poll with
      | .closing [] => ({ s with poll := .sleeping }, [])
      | .closing ((symbol, qty) :: rest) => (s.closeNext symbol qty rest, [])
      | _ => (s, [])
  | .start k =>
      match s.poll, s.closers k with
      | .starting symbol qty rest, none =>
          -- A closer of paper trading has nothing to do.
          let stage := if g.paperTrading then .releasing else .ready
          ({ s with poll := .closing rest }.setCloser k (some ⟨symbol, qty, stage⟩), [])
      | _, _ => (s, [])
  | .turn k uuid =>
      match s.closers k with
      | some c => s.turn g k c uuid
      | none => (s, [])
  | .attempt k a =>
      match s.closers k with
      | some c =>
          match c.stage with
          | .requesting id retries => (s.tryRequest k c id retries a, [])
          | _ => (s, [])
      | none => (s, [])

/-- When the silence begins. -/
def start (positions : Entries String ℚ≥0) (executed : Executed) : State where
  openPositions := positions
  inFlight := []
  poll := .sleeping
  closers := fun _ => none
  executed := executed
  sold := []

/-! ### Selling once -/

def State.soldOf (s : State) (symbol : String) : ℚ≥0 :=
  ((s.sold.filter fun t => t.1 = symbol).map Prod.snd).sum

structure SellsOnce (positions : Entries String ℚ≥0) (s : State) : Prop where
  /-- No more is sold than was open. -/
  total : ∀ symbol, s.soldOf symbol ≤ (positions.lookup symbol).getD 0
  /-- Nothing is sold again. -/
  once : (s.sold.map Prod.fst).Nodup

/-- An order that is executed is answered, and a symbol that is marked has its position still. -/
def Heeds (s : State) : Event → Prop
  | .attempt k a =>
      match (s.closers k).map Closer.stage with
      | some (.requesting id _) =>
          State.executes s.executed id a = true → a.answer = .intact
      | _ => True
  | .next =>
      match s.poll with
      | .closing ((symbol, qty) :: _) =>
          0 < qty → symbol ∉ s.inFlight → symbol ∈ s.openPositions
      | _ => True
  | _ => True

variable {g : Strategy} {positions : Entries String ℚ≥0} {s : State} {k : ℕ} {c : Closer}

/-! ### The invariant -/

/-- What is left of the copy. -/
def Poll.rest : Poll → List (String × ℚ≥0)
  | .sleeping => []
  | .closing rest => rest
  | .starting _ _ rest => rest

/-- The position is still to be sold. -/
def CloseStage.Selling (st : CloseStage) : Prop := st ≠ .placed ∧ st ≠ .releasing

/-- What the marks guard: a symbol has one closer at most, which works on what was recorded. -/
structure Guarded (positions : Entries String ℚ≥0) (s : State) : Prop where
  unique : ∀ k k' c c', s.closers k = some c → s.closers k' = some c' → c.symbol = c'.symbol →
    k = k'
  marked : ∀ k c, s.closers k = some c → c.symbol ∈ s.inFlight
  /-- The symbol whose closer is about to be started has none. -/
  starting : ∀ symbol qty rest, s.poll = .starting symbol qty rest →
    symbol ∈ s.inFlight ∧ positions.lookup symbol = some qty ∧
      ∀ k c, s.closers k = some c → c.symbol ≠ symbol
  copied : ∀ t ∈ s.poll.rest, positions.lookup t.1 = some t.2
  qty : ∀ k c, s.closers k = some c → positions.lookup c.symbol = some c.qty

structure Inv (positions : Entries String ℚ≥0) (s : State) : Prop
    extends Guarded positions s where
  recorded : ∀ symbol qty, s.openPositions.lookup symbol = some qty →
    positions.lookup symbol = some qty
  starting_open : ∀ symbol qty rest, s.poll = .starting symbol qty rest →
    symbol ∈ s.openPositions
  selling : ∀ k c, s.closers k = some c → c.stage.Selling → c.symbol ∈ s.openPositions
  sold_once : (s.sold.map Prod.fst).Nodup
  sold_qty : ∀ t ∈ s.sold, positions.lookup t.1 = some t.2
  /-- A position that is sold is removed by its closer. -/
  sold_open : ∀ t ∈ s.sold, t.1 ∈ s.openPositions →
    ∃ k c, s.closers k = some c ∧ c.symbol = t.1 ∧ c.stage = .placed

theorem inv_start (positions : Entries String ℚ≥0) (executed : Executed) :
    Inv positions (start positions executed) where
  unique := fun _ _ _ _ h => absurd h.symm (Option.some_ne_none _)
  marked := fun _ _ h => absurd h.symm (Option.some_ne_none _)
  starting := fun _ _ _ h => by cases h
  copied := fun _ h => absurd h List.not_mem_nil
  recorded := fun _ _ h => h
  starting_open := fun _ _ _ h => by cases h
  qty := fun _ _ h => absurd h.symm (Option.some_ne_none _)
  selling := fun _ _ h => absurd h.symm (Option.some_ne_none _)
  sold_once := List.nodup_nil
  sold_qty := fun _ h => absurd h List.not_mem_nil
  sold_open := fun _ h => absurd h List.not_mem_nil

theorem closers_setCloser (s : State) (k : ℕ) (o : Option Closer) (k' : ℕ) :
    (s.setCloser k o).closers k' = if k' = k then o else s.closers k' :=
  Function.update_apply s.closers k o k'

theorem forall_setCloser {P : ℕ → Closer → Prop} {k : ℕ} {o : Option Closer}
    (hset : ∀ c, o = some c → P k c)
    (hothers : ∀ k' c, k' ≠ k → s.closers k' = some c → P k' c) :
    ∀ k' c, (s.setCloser k o).closers k' = some c → P k' c := by
  intro k' c hk'
  rw [closers_setCloser] at hk'
  split at hk'
  · next heq => exact heq ▸ hset c hk'
  · next hne => exact hothers k' c hne hk'

theorem placed_setCloser {symbol : String} {s' : State} {k : ℕ} {o : Option Closer}
    (h : ∃ k c, s.closers k = some c ∧ c.symbol = symbol ∧ c.stage = .placed)
    (hsame : s'.closers = s.closers)
    (hother : ∀ c, s.closers k = some c → c.symbol = symbol → c.stage ≠ .placed) :
    ∃ k' c, (s'.setCloser k o).closers k' = some c ∧ c.symbol = symbol ∧ c.stage = .placed := by
  obtain ⟨k', c, hk', hsymbol, hplaced⟩ := h
  have hne : k' ≠ k := by
    rintro rfl
    exact hother c hk' hsymbol hplaced
  exact ⟨k', c, by rw [closers_setCloser, if_neg hne, hsame, hk'], hsymbol, hplaced⟩

/-- The closer of an unsold position is not the one that has sold it. -/
theorem Inv.not_sold (h : Inv positions s) (hk : s.closers k = some c) (hc : c.stage.Selling) :
    c.symbol ∉ s.sold.map Prod.fst := by
  intro hsold
  obtain ⟨t, ht, hsymbol⟩ := List.mem_map.mp hsold
  obtain ⟨k', c', hk', hsame, hplaced⟩ := h.sold_open t ht (hsymbol ▸ h.selling k c hk hc)
  obtain rfl : k' = k := h.unique k' k c' c hk' hk (hsame.trans hsymbol)
  rw [hk] at hk'
  exact hc.1 (Option.some.inj hk' ▸ hplaced)

/-! ### Steps of a closer -/

/-- The closers are those of before, up to their stages. -/
def Follows (s s' : State) : Prop :=
  ∀ k c, s'.closers k = some c → ∃ c₀, s.closers k = some c₀ ∧ c₀.symbol = c.symbol ∧ c₀.qty = c.qty

theorem follows_restage (hk : s.closers k = some c) (st : CloseStage) :
    Follows s (s.setCloser k (some { c with stage := st })) := by
  intro k' c' hk'
  rw [closers_setCloser] at hk'
  split at hk'
  · next heq =>
      cases hk'
      exact ⟨c, heq ▸ hk, rfl, rfl⟩
  · exact ⟨c', hk', rfl, rfl⟩

theorem Guarded.follows {s' : State} (h : Guarded positions s) (hfollows : Follows s s')
    (hflight : s'.inFlight = s.inFlight) (hpoll : s'.poll = s.poll) : Guarded positions s' where
  unique := by
    intro k k' c c' hk hk' hsame
    obtain ⟨d, hd, hsymbol, -⟩ := hfollows k c hk
    obtain ⟨d', hd', hsymbol', -⟩ := hfollows k' c' hk'
    exact h.unique k k' d d' hd hd' (by rw [hsymbol, hsymbol', hsame])
  marked := by
    intro k c hk
    obtain ⟨d, hd, hsymbol, -⟩ := hfollows k c hk
    rw [hflight, ← hsymbol]
    exact h.marked k d hd
  starting := by
    intro symbol qty rest hstarting
    rw [hpoll] at hstarting
    obtain ⟨hmarked, hrecorded, hnone⟩ := h.starting symbol qty rest hstarting
    refine ⟨hflight ▸ hmarked, hrecorded, fun k c hk => ?_⟩
    obtain ⟨d, hd, hsymbol, -⟩ := hfollows k c hk
    exact hsymbol ▸ hnone k d hd
  copied := by
    rw [hpoll]
    exact h.copied
  qty := by
    intro k c hk
    obtain ⟨d, hd, hsymbol, hqty⟩ := hfollows k c hk
    rw [← hsymbol, ← hqty]
    exact h.qty k d hd

theorem Inv.restage (h : Inv positions s) (hk : s.closers k = some c) (hc : c.stage.Selling)
    (st : CloseStage) (x : Executed) :
    Inv positions ({ s with executed := x }.setCloser k (some { c with stage := st })) where
  toGuarded := h.toGuarded.follows (follows_restage hk st) rfl rfl
  recorded := h.recorded
  starting_open := h.starting_open
  selling := by
    refine forall_setCloser ?_ fun k' c' _ => h.selling k' c'
    rintro _ ⟨⟩ _
    exact h.selling k c hk hc
  sold_once := h.sold_once
  sold_qty := h.sold_qty
  sold_open := by
    intro t ht hopen
    refine placed_setCloser (h.sold_open t ht hopen) rfl fun c' hk' _ hplaced => ?_
    cases hk.symm.trans hk'
    exact hc.1 hplaced

theorem Inv.sell (h : Inv positions s) (hk : s.closers k = some c) (hc : c.stage.Selling)
    (x : Executed) :
    Inv positions ({ s with executed := x, sold := (c.symbol, c.qty) :: s.sold }.setCloser k
      (some { c with stage := .placed })) where
  toGuarded := h.toGuarded.follows (follows_restage hk .placed) rfl rfl
  recorded := h.recorded
  starting_open := h.starting_open
  selling := by
    refine forall_setCloser ?_ fun k' c' _ => h.selling k' c'
    rintro _ ⟨⟩ hc'
    exact absurd rfl hc'.1
  sold_once := List.nodup_cons.mpr ⟨h.not_sold hk hc, h.sold_once⟩
  sold_qty := List.forall_mem_cons.mpr ⟨h.qty k c hk, h.sold_qty⟩
  sold_open := by
    intro t ht hopen
    rcases List.mem_cons.mp ht with rfl | ht
    · refine ⟨k, { c with stage := .placed }, ?_, rfl, rfl⟩
      rw [closers_setCloser, if_pos rfl]
    · refine placed_setCloser (h.sold_open t ht hopen) rfl fun c' hk' _ hplaced => ?_
      cases hk.symm.trans hk'
      exact hc.1 hplaced

theorem Inv.remove (h : Inv positions s) (hk : s.closers k = some c) :
    Inv positions ({ s with openPositions := s.openPositions.erase c.symbol }.setCloser k
      (some { c with stage := .releasing })) where
  toGuarded := h.toGuarded.follows (follows_restage hk .releasing) rfl rfl
  recorded := by
    intro symbol qty hlookup
    have hne : symbol ≠ c.symbol := by
      rintro rfl
      cases (AList.lookup_erase c.symbol s.openPositions).symm.trans hlookup
    exact h.recorded symbol qty ((AList.lookup_erase_ne hne).symm.trans hlookup)
  starting_open := by
    intro symbol qty rest hstarting
    obtain ⟨-, -, hnone⟩ := h.starting symbol qty rest hstarting
    exact AList.mem_erase.mpr ⟨(hnone k c hk).symm, h.starting_open symbol qty rest hstarting⟩
  selling := by
    refine forall_setCloser ?_ fun k' c' hne hk' hc' => ?_
    · rintro _ ⟨⟩ hc'
      exact absurd rfl hc'.2
    · refine AList.mem_erase.mpr ⟨fun hsame => hne ?_, h.selling k' c' hk' hc'⟩
      exact h.unique k' k c' c hk' hk hsame
  sold_once := h.sold_once
  sold_qty := h.sold_qty
  sold_open := by
    intro t ht hopen
    obtain ⟨hne, hopen⟩ := AList.mem_erase.mp hopen
    refine placed_setCloser (h.sold_open t ht hopen) rfl fun c' hk' hsymbol _ => hne ?_
    cases hk.symm.trans hk'
    exact hsymbol.symm

theorem Inv.release (h : Inv positions s) (hk : s.closers k = some c)
    (hc : c.stage = .releasing) :
    Inv positions
      ({ s with inFlight := s.inFlight.filter (· ≠ c.symbol) }.setCloser k none) where
  unique := by
    intro k₁ k₂ c₁ c₂ hk₁ hk₂ hsame
    rw [closers_setCloser] at hk₁ hk₂
    split at hk₁
    · cases hk₁
    · split at hk₂
      · cases hk₂
      · exact h.unique k₁ k₂ c₁ c₂ hk₁ hk₂ hsame
  marked := by
    refine forall_setCloser (fun _ => nofun) fun k' c' hne hk' => ?_
    have hsymbol : c'.symbol ≠ c.symbol := fun hsame => hne (h.unique k' k c' c hk' hk hsame)
    exact List.mem_filter.mpr ⟨h.marked k' c' hk', decide_eq_true hsymbol⟩
  starting := by
    intro symbol qty rest hstarting
    obtain ⟨hmarked, hrecorded, hnone⟩ := h.starting symbol qty rest hstarting
    have hsymbol : symbol ≠ c.symbol := (hnone k c hk).symm
    exact ⟨List.mem_filter.mpr ⟨hmarked, decide_eq_true hsymbol⟩, hrecorded,
      forall_setCloser (fun _ => nofun) fun k' c' _ => hnone k' c'⟩
  copied := h.copied
  qty := forall_setCloser (fun _ => nofun) fun k' c' _ => h.qty k' c'
  recorded := h.recorded
  starting_open := h.starting_open
  selling := forall_setCloser (fun _ => nofun) fun k' c' _ => h.selling k' c'
  sold_once := h.sold_once
  sold_qty := h.sold_qty
  sold_open := by
    intro t ht hopen
    refine placed_setCloser (h.sold_open t ht hopen) rfl fun c' hk' _ hplaced => ?_
    cases hk.symm.trans hk'
    cases hc.symm.trans hplaced

/-- An answer that gets through tells of the order that was executed. -/
theorem attempt_of_executes {x : Executed} {id : String} {a : Attempt}
    (h : State.executes x id a = true) (hanswer : a.answer = .intact) :
    ∃ o, (attempt x id a).2 = some (.orderId o) := by
  simp only [State.executes, Bool.and_eq_true] at h
  obtain ⟨o, ho⟩ := Option.isSome_iff_exists.mp h.2
  exact ⟨o, by simp [attempt, resultOf, h.1, ho, hanswer]⟩

theorem inv_tryRequest (h : Inv positions s) (hk : s.closers k = some c) {id : String}
    {retries : ℕ} (hc : c.stage = .requesting id retries) {a : Attempt}
    (hheeds : State.executes s.executed id a = true → a.answer = .intact) :
    Inv positions (s.tryRequest k c id retries a) := by
  have hselling : c.stage.Selling := by
    rw [hc]
    exact ⟨by simp, by simp⟩
  cases hexec : State.executes s.executed id a with
  | true =>
      obtain ⟨o, ho⟩ := attempt_of_executes hexec (hheeds hexec)
      simp only [State.tryRequest, hexec, ho, if_true, State.afterAttempt]
      exact h.sell hk hselling _
  | false =>
      simp only [State.tryRequest, hexec, Bool.false_eq_true, if_false]
      exact h.restage hk hselling _ _

theorem inv_turn (h : Inv positions s) (hk : s.closers k = some c) (uuid : String) :
    Inv positions (s.turn g k c uuid).1 := by
  unfold State.turn
  cases hc : c.stage with
  | ready => exact h.restage hk (by rw [hc]; exact ⟨by simp, by simp⟩) _ _
  | requesting id retries => exact h
  | placed => exact h.remove hk
  | sleeping => exact h.restage hk (by rw [hc]; exact ⟨by simp, by simp⟩) _ _
  | releasing => exact h.release hk hc

/-! ### Steps of the poll -/

/-- The poll moves on without marking anything. -/
theorem Inv.pass (h : Inv positions s) {poll : Poll}
    (hcopied : ∀ t ∈ poll.rest, positions.lookup t.1 = some t.2)
    (hpoll : ∀ symbol qty rest, poll ≠ .starting symbol qty rest) :
    Inv positions { s with poll } where
  unique := h.unique
  marked := h.marked
  starting := fun symbol qty rest hstarting => absurd hstarting (hpoll symbol qty rest)
  copied := hcopied
  qty := h.qty
  recorded := h.recorded
  starting_open := fun symbol qty rest hstarting => absurd hstarting (hpoll symbol qty rest)
  selling := h.selling
  sold_once := h.sold_once
  sold_qty := h.sold_qty
  sold_open := h.sold_open

theorem Inv.mark (h : Inv positions s) {symbol : String} {qty : ℚ≥0}
    {rest : List (String × ℚ≥0)} (hpoll : s.poll = .closing ((symbol, qty) :: rest))
    (hflight : symbol ∉ s.inFlight) (hopen : symbol ∈ s.openPositions) :
    Inv positions
      { s with poll := .starting symbol qty rest, inFlight := symbol :: s.inFlight } where
  unique := h.unique
  marked := fun k c hk => List.mem_cons_of_mem symbol (h.marked k c hk)
  starting := by
    intro symbol' qty' rest' hstarting
    cases hstarting
    have hcopied := h.copied
    rw [hpoll] at hcopied
    refine ⟨List.mem_cons_self, hcopied (symbol, qty) List.mem_cons_self, fun k c hk hsame => ?_⟩
    exact hflight (hsame ▸ h.marked k c hk)
  copied := by
    have hcopied := h.copied
    rw [hpoll] at hcopied
    exact fun t ht => hcopied t (List.mem_cons_of_mem _ ht)
  qty := h.qty
  recorded := h.recorded
  starting_open := by
    intro symbol' qty' rest' hstarting
    cases hstarting
    exact hopen
  selling := h.selling
  sold_once := h.sold_once
  sold_qty := h.sold_qty
  sold_open := h.sold_open

theorem Inv.launch (h : Inv positions s) {symbol : String} {qty : ℚ≥0}
    {rest : List (String × ℚ≥0)} (hpoll : s.poll = .starting symbol qty rest)
    (hk : s.closers k = none) (st : CloseStage) :
    Inv positions
      ({ s with poll := .closing rest }.setCloser k (some ⟨symbol, qty, st⟩)) := by
  obtain ⟨hmarked, hrecorded, hnone⟩ := h.starting symbol qty rest hpoll
  have hopen := h.starting_open symbol qty rest hpoll
  refine ⟨⟨?_, ?_, ?_, ?_, ?_⟩, h.recorded, ?_, ?_, h.sold_once, h.sold_qty, ?_⟩
  · intro k₁ k₂ c₁ c₂ hk₁ hk₂ hsame
    rw [closers_setCloser] at hk₁ hk₂
    split at hk₁
    · next heq₁ =>
        cases hk₁
        split at hk₂
        · next heq₂ => rw [heq₁, heq₂]
        · exact absurd hsame.symm (hnone k₂ c₂ hk₂)
    · split at hk₂
      · cases hk₂
        exact absurd hsame (hnone k₁ c₁ hk₁)
      · exact h.unique k₁ k₂ c₁ c₂ hk₁ hk₂ hsame
  · refine forall_setCloser ?_ fun k' c' _ => h.marked k' c'
    rintro _ ⟨⟩
    exact hmarked
  · intro symbol' qty' rest' hstarting
    cases hstarting
  · have hcopied := h.copied
    rw [hpoll] at hcopied
    exact hcopied
  · refine forall_setCloser ?_ fun k' c' _ => h.qty k' c'
    rintro _ ⟨⟩
    exact hrecorded
  · intro symbol' qty' rest' hstarting
    cases hstarting
  · refine forall_setCloser ?_ fun k' c' _ => h.selling k' c'
    rintro _ ⟨⟩ _
    exact hopen
  · intro t ht hopen'
    refine placed_setCloser (h.sold_open t ht hopen') rfl fun c' hk' => ?_
    cases hk.symm.trans hk'

theorem inv_onBusTimeout (g : Strategy) (h : Inv positions s) :
    Inv positions (s.onBusTimeout g) := by
  unfold State.onBusTimeout
  split
  · refine h.pass (fun t ht => ?_) fun _ _ _ => Poll.noConfusion
    obtain ⟨e, he, rfl⟩ := List.mem_map.mp ht
    exact h.recorded e.1 e.2 (AList.mem_lookup_iff.mpr he)
  · exact h

theorem inv_closeNext (h : Inv positions s) {symbol : String} {qty : ℚ≥0}
    {rest : List (String × ℚ≥0)} (hpoll : s.poll = .closing ((symbol, qty) :: rest))
    (hheeds : 0 < qty → symbol ∉ s.inFlight → symbol ∈ s.openPositions) :
    Inv positions (s.closeNext symbol qty rest) := by
  unfold State.closeNext
  split
  · have hcopied := h.copied
    rw [hpoll] at hcopied
    exact h.pass (fun t ht => hcopied t (List.mem_cons_of_mem _ ht)) fun _ _ _ => Poll.noConfusion
  · next hpasses =>
      obtain ⟨hqty, hflight⟩ := not_or.mp hpasses
      exact h.mark hpoll hflight (hheeds (not_le.mp hqty) hflight)

/-! ### Runs -/

theorem inv_step (g : Strategy) (h : Inv positions s) (e : Event) (hheeds : Heeds s e) :
    Inv positions (step g s e).1 := by
  cases e with
  | poll silent =>
      simp only [step]
      cases hpoll : s.poll with
      | sleeping =>
          cases silent with
          | true => exact inv_onBusTimeout g h
          | false => exact h
      | closing rest => exact h
      | starting symbol qty rest => exact h
  | next =>
      simp only [step]
      cases hpoll : s.poll with
      | sleeping => exact h
      | starting symbol qty rest => exact h
      | closing rest =>
          cases rest with
          | nil =>
              exact h.pass (fun _ ht => absurd ht List.not_mem_nil) fun _ _ _ => Poll.noConfusion
          | cons t rest =>
              simp only [Heeds, hpoll] at hheeds
              exact inv_closeNext h hpoll hheeds
  | start k =>
      simp only [step]
      cases hpoll : s.poll with
      | sleeping => exact h
      | closing rest => exact h
      | starting symbol qty rest =>
          cases hk : s.closers k with
          | some c => exact h
          | none => exact h.launch hpoll hk _
  | turn k uuid =>
      simp only [step]
      cases hk : s.closers k with
      | none => exact h
      | some c => exact inv_turn h hk uuid
  | attempt k a =>
      simp only [step]
      cases hk : s.closers k with
      | none => exact h
      | some c =>
          dsimp only
          cases hc : c.stage with
          | requesting id retries =>
              simp only [Heeds, hk, Option.map_some, hc] at hheeds
              exact inv_tryRequest h hk hc hheeds
          | ready => exact h
          | placed => exact h
          | sleeping => exact h
          | releasing => exact h

/-- Where each symbol is sold once, no more of it is sold than that one sale. -/
theorem sum_filter_le {f : String → ℚ≥0} (symbol : String) :
    ∀ l : List (String × ℚ≥0), (l.map Prod.fst).Nodup → (∀ t ∈ l, t.2 ≤ f t.1) →
      ((l.filter fun t => t.1 = symbol).map Prod.snd).sum ≤ f symbol
  | [], _, _ => zero_le
  | t :: l, hnodup, hle => by
      obtain ⟨hnew, hnodup⟩ := List.nodup_cons.mp hnodup
      by_cases hsymbol : t.1 = symbol
      · have hnone : (l.filter fun t => t.1 = symbol) = [] := by
          refine List.filter_eq_nil_iff.mpr fun t' ht' hsame => hnew ?_
          rw [hsymbol, ← of_decide_eq_true hsame]
          exact List.mem_map_of_mem ht'
        rw [List.filter_cons, if_pos (decide_eq_true hsymbol), hnone]
        simpa [← hsymbol] using hle t List.mem_cons_self
      · rw [List.filter_cons, if_neg (by simpa using hsymbol)]
        exact sum_filter_le symbol l hnodup fun t' ht' => hle t' (List.mem_cons_of_mem t ht')

theorem Inv.sellsOnce (h : Inv positions s) : SellsOnce positions s where
  total := by
    intro symbol
    refine sum_filter_le (f := fun symbol => (positions.lookup symbol).getD 0) symbol s.sold
      h.sold_once fun t ht => ?_
    rw [h.sold_qty t ht]
    exact le_rfl
  once := h.sold_once

/-- **Every position is sold once at most**, in every run in which the orders that are executed are
answered and no symbol is marked whose position is gone. -/
theorem sellsOnce_of_heeds (g : Strategy) (positions : Entries String ℚ≥0) (executed : Executed)
    (es : List Event) (h : Along (step g) Heeds (start positions executed) es) :
    SellsOnce positions (final (step g) (start positions executed) es) := by
  have hstep : ∀ s e, Inv positions s → Heeds s e → Inv positions (step g s e).1 :=
    fun _ e hs hheeds => inv_step g hs e hheeds
  exact (final_invariant_along hstep es (inv_start positions executed) h).sellsOnce

def live : Strategy where
  name := "momentum"
  exchange := "bybit"
  closeOnBusTimeout := true
  hasExchangeClient := true
  paperTrading := false

def oneCoin : Entries String ℚ≥0 := AList.singleton "BTCUSDT" 1

/-- The exchange executes the order and answers. -/
def answered (orderId : String) : Attempt := ⟨true, some orderId, .intact⟩

/-- The exchange executes the order, and its answer does not get through. -/
def unanswered (orderId : String) : Attempt := ⟨true, some orderId, .serverError⟩

/-- A silent bus, until the closer of the only position is about to send its order. -/
def silence : List Event := [.poll true, .next, .start 0, .turn 0 "a"]

theorem sellsOnce_silence :
    SellsOnce oneCoin (final (step live) (start oneCoin [])
      (silence ++ [.attempt 0 (answered "1"), .turn 0 "b", .turn 0 "b", .next])) := by
  refine sellsOnce_of_heeds live oneCoin [] _ ⟨trivial, ?_, trivial, trivial, fun _ => rfl, trivial,
    trivial, trivial, trivial⟩
  exact fun _ _ => by decide

/-- The answer to the first request gets lost, and its retry is refused; the closer makes another
request. -/
theorem lost_answer_sells_again :
    let s := final (step live) (start oneCoin [])
      (silence ++ [.attempt 0 (unanswered "1"), .attempt 0 (answered "2"), .turn 0 "b",
        .turn 0 "b", .attempt 0 (answered "2")])
    s.soldOf "BTCUSDT" = 1 + 1 ∧ ¬ SellsOnce oneCoin s := by
  intro s
  exact ⟨by decide +kernel, fun h => absurd h.once (by decide +kernel)⟩

/-- The poll copies the positions while the closer is about to remove its own, and takes its turn
when the mark is gone. -/
theorem stale_copy_sells_again :
    let s := final (step live) (start oneCoin [])
      (silence ++ [.next, .attempt 0 (answered "1"), .poll true, .turn 0 "b", .turn 0 "b", .next,
        .start 0, .turn 0 "b", .attempt 0 (answered "2")])
    s.soldOf "BTCUSDT" = 1 + 1 ∧ ¬ SellsOnce oneCoin s := by
  intro s
  exact ⟨by decide +kernel, fun h => absurd h.once (by decide +kernel)⟩

end MagnumOpus.Bot.EmergencyClose
