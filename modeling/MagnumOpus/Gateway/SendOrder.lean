import Mathlib.Data.List.NodupEquivFin
import MagnumOpus.Gateway.Provenance

/-!
# The order in which a client gets the books

`Subscribe` and `Route` decide under the hub's lock what to send, and send after they have left
it.  So a call is two kinds of steps here: the one under the lock, and each send.  The messages
are routed one after the other by one goroutine, and a client's subscriptions are made one after
the other by its own; all else may interleave.

* **The hope.** The books that are put into a client's send queue for a symbol rise: no one comes
  after a newer one, and no one twice (`Rising`).
* **Why it fails.** Between the lock and the send of a subscription, a newer book may be sent.
* **When it holds.** Exactly when no snapshot is sent that is stale, and no book to a client that
  has been sent it as its snapshot (`rising_iff`).
-/

namespace MagnumOpus
namespace Gateway

open EventMachine JsonDecode

/-- A book put into a client's send queue, with its number among the books routed. -/
structure Put (N : Floats) (C : Type) where
  client : C
  symbol : String
  number : ℕ
  frame : Frame N

/-- A subscription that has left the lock with a snapshot and has not sent it yet.  It is stale
when the snapshot, or a newer book of the symbol, has been put into the client's queue. -/
structure Pending (N : Floats) where
  symbol : String
  number : ℕ
  frame : Frame N
  stale : Bool

/-- A routed book, the clients it is still to be sent to, and those that were sent it as their
snapshot in the meantime. -/
structure Fanout (N : Floats) (C : Type) where
  symbol : String
  number : ℕ
  frame : Frame N
  targets : List C
  served : List C

/-- The hub, and the calls that have left its lock. -/
structure Traffic (N : Floats) (C : Type) where
  hub : Hub N C
  /-- The number of the last book of a symbol. -/
  lastNumber : String → ℕ
  /-- The books that were routed. -/
  published : List (String × Frame N)
  pending : C → Option (Pending N)
  fanout : Option (Fanout N C)
  /-- What was put into the queues. -/
  puts : List (Put N C)

/-- A step of a call, and for a send whether the client's queue has room. -/
inductive Call (C : Type)
  | registerSender (c : C)
  | unregisterSender (c : C)
  | unsubscribe (c : C) (symbol : String)
  | subscribe (c : C) (symbol : String)
  | sendSnapshot (c : C) (room : Bool)
  | routeOrderbook (symbol : String) (payload : JsonValue)
  | sendEncoded (c : C) (room : Bool)

namespace Traffic

variable {N : Floats} {C : Type} [DecidableEq C]

def new : Traffic N C := ⟨Hub.new, fun _ => 0, [], fun _ => none, none, []⟩

/-- A call of a client that is between two subscriptions. -/
def whenIdle (s : Traffic N C) (c : C) (s' : Traffic N C) : Traffic N C :=
  match s.pending c with
  | none => s'
  | some _ => s

/-- `Subscribe`, up to where it leaves the lock. -/
def subscribe (s : Traffic N C) (c : C) (symbol : String) : Traffic N C :=
  s.whenIdle c
    { s with
      hub := (s.hub.subscribe c symbol).1
      pending := Function.update s.pending c ((s.hub.subscribe c symbol).2.map fun snap =>
        { symbol := symbol
          number := s.lastNumber symbol
          frame := snap
          stale := s.puts.any fun d =>
            d.client = c ∧ d.symbol = symbol ∧ s.lastNumber symbol ≤ d.number }) }

/-- The end of `Subscribe`. -/
def sendSnapshot (s : Traffic N C) (c : C) (room : Bool) : Traffic N C :=
  match s.pending c with
  | none => s
  | some p =>
    let sent := { s with pending := Function.update s.pending c none }
    if room then
      { sent with
        puts := s.puts ++ [⟨c, p.symbol, p.number, p.frame⟩]
        fanout := s.fanout.map fun r =>
          if r.symbol = p.symbol ∧ r.number = p.number then { r with served := c :: r.served }
          else r }
    else sent

/-- `routeOrderbook`, up to where it leaves the lock. -/
def routeOrderbook (s : Traffic N C) (symbol : String) (payload : JsonValue) : Traffic N C :=
  if (s.fanout.any fun r => !r.targets.isEmpty) then s
  else
    match encodeBinary N payload with
    | none => s
    | some encoded =>
      { s with
        hub := (s.hub.routeOrderbook symbol payload).1
        lastNumber := Function.update s.lastNumber symbol s.published.length
        published := s.published ++ [(symbol, encoded)]
        fanout := some ⟨symbol, s.published.length, encoded, s.hub.bySymbol symbol, []⟩ }

/-- The next send of `routeOrderbook`. -/
def sendEncoded (s : Traffic N C) (c : C) (room : Bool) : Traffic N C :=
  match s.fanout with
  | none => s
  | some r =>
    if c ∈ r.targets then
      let sent := { s with fanout := some { r with targets := r.targets.erase c } }
      if room then
        { sent with
          puts := s.puts ++ [⟨c, r.symbol, r.number, r.frame⟩]
          pending := Function.update s.pending c ((s.pending c).map fun p =>
            { p with stale := p.stale || decide (p.symbol = r.symbol) }) }
      else sent
    else s

def next (s : Traffic N C) : Call C → Traffic N C
  | .registerSender c => { s with hub := s.hub.registerSender c }
  | .unregisterSender c => s.whenIdle c { s with hub := s.hub.unregisterSender c }
  | .unsubscribe c symbol => s.whenIdle c { s with hub := s.hub.unsubscribe c symbol }
  | .subscribe c symbol => s.subscribe c symbol
  | .sendSnapshot c room => s.sendSnapshot c room
  | .routeOrderbook symbol payload => s.routeOrderbook symbol payload
  | .sendEncoded c room => s.sendEncoded c room

def step : Step (Traffic N C) (Call C) Unit := fun s call => (s.next call, [])

/-! ### Statements -/

/-- The books of a client and a symbol rise. -/
def Rising (s : Traffic N C) : Prop :=
  s.puts.Pairwise fun d d' => d.client = d'.client → d.symbol = d'.symbol → d.number < d'.number

/-- No stale snapshot is sent, and no book to a client that has it as its snapshot. -/
def InTurn (s : Traffic N C) : Call C → Prop
  | .sendSnapshot c true => ∀ p ∈ s.pending c, p.stale = false
  | .sendEncoded c true => ∀ r ∈ s.fanout, c ∈ r.targets → c ∉ r.served
  | _ => True

/-- The books put into a client's queue for a symbol. -/
def queued (s : Traffic N C) (c : C) (symbol : String) : List (Frame N) :=
  (s.puts.filter fun d => d.client = c ∧ d.symbol = symbol).map Put.frame

/-- The books published for a symbol. -/
def books (s : Traffic N C) (symbol : String) : List (Frame N) :=
  (s.published.filter fun b => b.1 = symbol).map Prod.snd

/-! ### What holds in every run -/

/-- A book of a symbol from the number on has been put into the client's queue. -/
def Got (s : Traffic N C) (c : C) (symbol : String) (number : ℕ) : Prop :=
  ∃ d ∈ s.puts, d.client = c ∧ d.symbol = symbol ∧ number ≤ d.number

/-- The frame is the book of that number, and the symbol's last book is not before it. -/
def Published (s : Traffic N C) (symbol : String) (number : ℕ) (frame : Frame N) : Prop :=
  s.published[number]? = some (symbol, frame) ∧ number ≤ s.lastNumber symbol

/-- What is in flight is published, and knows what the clients got. -/
structure Tracked (s : Traffic N C) : Prop where
  put : ∀ d ∈ s.puts, s.Published d.symbol d.number d.frame
  snap : ∀ symbol, ∀ f ∈ s.hub.lastSnap symbol, s.Published symbol (s.lastNumber symbol) f
  pending : ∀ c, ∀ p ∈ s.pending c, s.Published p.symbol p.number p.frame ∧
    (p.stale = true ↔ s.Got c p.symbol p.number)
  fanout : ∀ r ∈ s.fanout, s.Published r.symbol r.number r.frame ∧
    r.number = s.lastNumber r.symbol ∧ r.targets.Nodup ∧
    ∀ c ∈ r.targets, (c ∈ r.served ↔ s.Got c r.symbol r.number)
  members : ∀ symbol, (s.hub.bySymbol symbol).Nodup

omit [DecidableEq C] in
theorem got_append {s s' : Traffic N C} {d : Put N C} (h : s'.puts = s.puts ++ [d]) (c : C)
    (symbol : String) (number : ℕ) :
    s'.Got c symbol number ↔
      s.Got c symbol number ∨ d.client = c ∧ d.symbol = symbol ∧ number ≤ d.number := by
  unfold Got
  rw [h]
  simp only [List.mem_append, List.mem_singleton, or_and_right, exists_or, exists_eq_left]

omit [DecidableEq C] in
/-- The books still rise after one more put exactly when the client got none from it on. -/
theorem rising_append {s s' : Traffic N C} {d : Put N C} (h : s'.puts = s.puts ++ [d]) :
    s'.Rising ↔ s.Rising ∧ ¬ s.Got d.client d.symbol d.number := by
  unfold Rising Got
  rw [h, List.pairwise_append]
  simp only [List.pairwise_singleton, List.mem_singleton, forall_eq, true_and, not_exists, not_and,
    not_le]

omit [DecidableEq C] in
theorem tracked_new : (new : Traffic N C).Tracked where
  put _ hd := absurd hd List.not_mem_nil
  snap _ f hf := absurd hf (Option.not_mem_none f)
  pending _ p hp := absurd hp (Option.not_mem_none p)
  fanout r hr := absurd hr (Option.not_mem_none r)
  members _ := List.nodup_nil

omit [DecidableEq C] in
theorem tracked_hub {s : Traffic N C} (h : s.Tracked) {hub : Hub N C}
    (hsnap : ∀ symbol, ∀ f ∈ hub.lastSnap symbol, f ∈ s.hub.lastSnap symbol)
    (hmembers : ∀ symbol, (hub.bySymbol symbol).Nodup) : Tracked { s with hub := hub } where
  put := h.put
  snap symbol f hf := h.snap symbol f (hsnap symbol f hf)
  pending := h.pending
  fanout := h.fanout
  members := hmembers

omit [DecidableEq C] in
theorem tracked_whenIdle {s s' : Traffic N C} (h : s.Tracked) (h' : s'.Tracked) (c : C) :
    (s.whenIdle c s').Tracked := by
  unfold whenIdle
  split
  · exact h'
  · exact h

omit [DecidableEq C] in
theorem nodup_update {members : String → List C} (h : ∀ symbol, (members symbol).Nodup)
    {symbol : String} {cs : List C} (hcs : cs.Nodup) (symbol' : String) :
    (Function.update members symbol cs symbol').Nodup := by
  by_cases heq : symbol' = symbol
  · rw [heq, Function.update_self]
    exact hcs
  · rw [Function.update_of_ne heq]
    exact h symbol'

theorem tracked_unregister {s : Traffic N C} (h : s.Tracked) (c : C) :
    Tracked { s with hub := s.hub.unregisterSender c } := by
  apply tracked_hub h
  · intro symbol f hf
    unfold Hub.unregisterSender at hf
    by_cases hlast : s.hub.bySymbol symbol ≠ [] ∧ (s.hub.bySymbol symbol).erase c = []
    · exact absurd hf (by simp [hlast])
    · simpa only [if_neg hlast] using hf
  · intro symbol
    exact (h.members symbol).erase c

theorem tracked_unsubscribe {s : Traffic N C} (h : s.Tracked) (c : C) (symbol : String) :
    Tracked { s with hub := s.hub.unsubscribe c symbol } := by
  unfold Hub.unsubscribe
  by_cases hnone : s.hub.bySymbol symbol = []
  · rw [if_pos hnone]
    exact h
  rw [if_neg hnone]
  apply tracked_hub h
  · intro symbol' f hf
    by_cases hlast : (s.hub.bySymbol symbol).erase c = []
    · simp only [if_pos hlast] at hf
      by_cases heq : symbol' = symbol
      · subst heq
        exact absurd hf (by simp)
      · rwa [Function.update_of_ne heq] at hf
    · simpa only [if_neg hlast] using hf
  · exact nodup_update h.members ((h.members symbol).erase c)

/-- The snapshot of a subscription is the last book, and stale from the start when the client got
it before. -/
theorem tracked_subscribe {s : Traffic N C} (h : s.Tracked) (c : C) (symbol : String) :
    (s.subscribe c symbol).Tracked := by
  apply tracked_whenIdle h
  have hmembers : ∀ symbol', ((s.hub.subscribe c symbol).1.bySymbol symbol').Nodup :=
    nodup_update h.members (h.members symbol).insert
  refine ⟨h.put, h.snap, ?_, h.fanout, hmembers⟩
  intro c' p hp
  by_cases heq : c' = c
  · subst heq
    simp only [Function.update_self] at hp
    obtain ⟨snap, hsnap, rfl⟩ := Option.map_eq_some_iff.mp hp
    refine ⟨h.snap symbol snap hsnap, ?_⟩
    simp only [List.any_eq_true, decide_eq_true_eq]
    rfl
  · simp only [Function.update_of_ne heq] at hp
    exact h.pending c' p hp

omit [DecidableEq C] in
theorem got_append_of_ne {s s' : Traffic N C} {d : Put N C} (h : s'.puts = s.puts ++ [d]) {c : C}
    (hne : c ≠ d.client) (symbol : String) (number : ℕ) :
    s'.Got c symbol number ↔ s.Got c symbol number := by
  rw [got_append h]
  exact or_iff_left fun hd => hne hd.1.symm

/-- The end of a subscription: when the book is still being sent, the client is served. -/
theorem tracked_sendSnapshot {s : Traffic N C} (h : s.Tracked) (c : C) (room : Bool) :
    (s.sendSnapshot c room).Tracked := by
  unfold sendSnapshot
  cases hp : s.pending c with
  | none => exact h
  | some p =>
    have hrest : ∀ c', ∀ p' ∈ Function.update s.pending c none c', c' ≠ c ∧ p' ∈ s.pending c' := by
      intro c' p' hp'
      by_cases heq : c' = c
      · subst heq
        exact absurd hp' (by simp)
      · exact ⟨heq, by simpa [Function.update_of_ne heq] using hp'⟩
    cases room with
    | false => exact ⟨h.put, h.snap, fun c' p' hp' => h.pending c' p' (hrest c' p' hp').2, h.fanout,
        h.members⟩
    | true =>
      obtain ⟨hpublished, -⟩ := h.pending c p hp
      refine ⟨?_, h.snap, ?_, ?_, h.members⟩
      · exact List.forall_mem_append.mpr ⟨h.put, List.forall_mem_singleton.mpr hpublished⟩
      · intro c' p' hp'
        obtain ⟨hne, hp'⟩ := hrest c' p' hp'
        refine ⟨(h.pending c' p' hp').1, ?_⟩
        rw [got_append_of_ne (s := s) rfl hne]
        exact (h.pending c' p' hp').2
      · intro r' hr'
        obtain ⟨r, hr, rfl⟩ := Option.map_eq_some_iff.mp hr'
        obtain ⟨hbook, hlast, hnodup, hserved⟩ := h.fanout r hr
        by_cases hsame : r.symbol = p.symbol ∧ r.number = p.number
        · rw [if_pos hsame]
          refine ⟨hbook, hlast, hnodup, fun c' hc' => ?_⟩
          rw [got_append (s := s) rfl, ← hserved c' hc', List.mem_cons]
          constructor
          · rintro (rfl | hmem)
            · exact Or.inr ⟨rfl, hsame.1.symm, hsame.2.le⟩
            · exact Or.inl hmem
          · rintro (hmem | ⟨heq, -⟩)
            · exact Or.inr hmem
            · exact Or.inl heq.symm
        · -- the snapshot is older than the book that is being sent
          rw [if_neg hsame]
          refine ⟨hbook, hlast, hnodup, fun c' hc' => ?_⟩
          rw [got_append (s := s) rfl, hserved c' hc']
          refine (or_iff_left ?_).symm
          rintro ⟨-, hsymbol, hle⟩
          have hsymbol : p.symbol = r.symbol := hsymbol
          have hle : r.number ≤ p.number := hle
          have hold : p.number ≤ r.number := by
            rw [hlast, ← hsymbol]
            exact hpublished.2
          exact hsame ⟨hsymbol.symm, by omega⟩

omit [DecidableEq C] in
theorem Published.append {s s' : Traffic N C} {symbol : String} {encoded : Frame N}
    (hpublished : s'.published = s.published ++ [(symbol, encoded)])
    (hlast : s'.lastNumber = Function.update s.lastNumber symbol s.published.length)
    {symbol' : String} {number : ℕ} {frame : Frame N} (h : s.Published symbol' number frame) :
    s'.Published symbol' number frame := by
  obtain ⟨hget, hle⟩ := h
  have hlt : number < s.published.length := (List.getElem?_eq_some_iff.mp hget).1
  constructor
  · rw [hpublished, List.getElem?_append_left hlt]
    exact hget
  · rw [hlast]
    by_cases heq : symbol' = symbol
    · subst heq
      rw [Function.update_self]
      omega
    · rwa [Function.update_of_ne heq]

omit [DecidableEq C] in
theorem tracked_routeOrderbook {s : Traffic N C} (h : s.Tracked) (symbol : String)
    (payload : JsonValue) : (s.routeOrderbook symbol payload).Tracked := by
  unfold routeOrderbook
  split
  · exact h
  cases hencoded : encodeBinary N payload with
  | none => exact h
  | some encoded =>
    set s' : Traffic N C := { s with
      hub := (s.hub.routeOrderbook symbol payload).1
      lastNumber := Function.update s.lastNumber symbol s.published.length
      published := s.published ++ [(symbol, encoded)]
      fanout := some ⟨symbol, s.published.length, encoded, s.hub.bySymbol symbol, []⟩ } with hs'
    have hkept : ∀ {symbol' number frame}, s.Published symbol' number frame →
        s'.Published symbol' number frame := Published.append rfl rfl
    have hnew : s'.Published symbol s.published.length encoded := by
      refine ⟨by simp [hs'], ?_⟩
      show s.published.length ≤ Function.update s.lastNumber symbol s.published.length symbol
      rw [Function.update_self]
    have hhub : (s.hub.routeOrderbook symbol payload).1
        = { s.hub with lastSnap := Function.update s.hub.lastSnap symbol (some encoded) } := by
      unfold Hub.routeOrderbook
      rw [hencoded]
    refine ⟨fun d hd => hkept (h.put d hd), ?_, ?_, ?_, ?_⟩
    · intro symbol' f hf
      have hf : f ∈ (s.hub.routeOrderbook symbol payload).1.lastSnap symbol' := hf
      rw [hhub] at hf
      change f ∈ Function.update s.hub.lastSnap symbol (some encoded) symbol' at hf
      by_cases heq : symbol' = symbol
      · subst heq
        rw [Function.update_self, Option.mem_some_iff] at hf
        subst hf
        show s'.Published symbol' (Function.update s.lastNumber symbol' _ symbol') _
        rwa [Function.update_self]
      · rw [Function.update_of_ne heq] at hf
        show s'.Published symbol' (Function.update s.lastNumber symbol _ symbol') _
        rw [Function.update_of_ne heq]
        exact hkept (h.snap symbol' f hf)
    · intro c p hp
      exact ⟨hkept (h.pending c p hp).1, (h.pending c p hp).2⟩
    · rintro r hr
      obtain rfl := Option.some_inj.mp hr
      refine ⟨hnew, ?_, h.members symbol, fun c _ => ?_⟩
      · show s.published.length = Function.update s.lastNumber symbol s.published.length symbol
        rw [Function.update_self]
      · refine iff_of_false List.not_mem_nil ?_
        rintro ⟨d, hd, -, -, hle⟩
        have hlt : d.number < s.published.length :=
          (List.getElem?_eq_some_iff.mp (h.put d hd).1).1
        have hle : s.published.length ≤ d.number := hle
        omega
    · intro symbol'
      show ((s.hub.routeOrderbook symbol payload).1.bySymbol symbol').Nodup
      rw [hhub]
      exact h.members symbol'

theorem tracked_sendEncoded {s : Traffic N C} (h : s.Tracked) (c : C) (room : Bool) :
    (s.sendEncoded c room).Tracked := by
  unfold sendEncoded
  cases hr : s.fanout with
  | none => exact h
  | some r =>
    obtain ⟨hbook, hlast, hnodup, hserved⟩ := h.fanout r hr
    show Tracked (if c ∈ r.targets then _ else s)
    by_cases hc : c ∈ r.targets
    · rw [if_pos hc]
      cases room with
      | false =>
        refine ⟨h.put, h.snap, h.pending, ?_, h.members⟩
        rintro r' hr'
        obtain rfl := Option.some_inj.mp hr'
        exact ⟨hbook, hlast, hnodup.erase c, fun c' hc' => hserved c' (List.mem_of_mem_erase hc')⟩
      | true =>
        refine ⟨?_, h.snap, ?_, ?_, h.members⟩
        · exact List.forall_mem_append.mpr ⟨h.put, List.forall_mem_singleton.mpr hbook⟩
        · intro c' p' hp'
          by_cases heq : c' = c
          · subst heq
            simp only [if_true, Function.update_self] at hp'
            obtain ⟨p, hp, rfl⟩ := Option.map_eq_some_iff.mp hp'
            obtain ⟨hpublished, hstale⟩ := h.pending c' p hp
            refine ⟨hpublished, ?_⟩
            rw [got_append (s := s) rfl, ← hstale, Bool.or_eq_true, decide_eq_true_iff]
            refine or_congr_right ⟨fun hsymbol => ⟨rfl, hsymbol.symm, ?_⟩, fun hd => hd.2.1.symm⟩
            show p.number ≤ r.number
            rw [hlast, ← hsymbol]
            exact hpublished.2
          · simp only [if_true, Function.update_of_ne heq] at hp'
            refine ⟨(h.pending c' p' hp').1, ?_⟩
            rw [got_append_of_ne (s := s) rfl heq]
            exact (h.pending c' p' hp').2
        · rintro r' hr'
          obtain rfl := Option.some_inj.mp hr'
          refine ⟨hbook, hlast, hnodup.erase c, fun c' hc' => ?_⟩
          obtain ⟨hne, hmem⟩ := hnodup.mem_erase_iff.mp hc'
          rw [got_append_of_ne (s := s) rfl hne]
          exact hserved c' hmem
    · rw [if_neg hc]
      exact h

theorem tracked_step (s : Traffic N C) (call : Call C) (h : s.Tracked) :
    (step s call).1.Tracked := by
  cases call with
  | registerSender c => exact tracked_hub h (fun _ _ hf => hf) h.members
  | unregisterSender c => exact tracked_whenIdle h (tracked_unregister h c) c
  | unsubscribe c symbol => exact tracked_whenIdle h (tracked_unsubscribe h c symbol) c
  | subscribe c symbol => exact tracked_subscribe h c symbol
  | sendSnapshot c room => exact tracked_sendSnapshot h c room
  | routeOrderbook symbol payload => exact tracked_routeOrderbook h symbol payload
  | sendEncoded c room => exact tracked_sendEncoded h c room

/-! ### When the books rise -/

omit [DecidableEq C] in
theorem rising_whenIdle {s s' : Traffic N C} (h : s'.puts = s.puts) (c : C) :
    (s.whenIdle c s').Rising ↔ s.Rising := by
  unfold whenIdle Rising
  split
  · rw [h]
  · rfl

theorem rising_sendSnapshot {s : Traffic N C} (h : s.Tracked) (c : C) (room : Bool) :
    (s.sendSnapshot c room).Rising ↔ s.Rising ∧ s.InTurn (.sendSnapshot c room) := by
  cases room with
  | false =>
    refine Iff.trans ?_ (and_iff_left trivial).symm
    unfold sendSnapshot
    cases s.pending c <;> rfl
  | true =>
    unfold sendSnapshot InTurn
    cases hp : s.pending c with
    | none =>
      refine (and_iff_left ?_).symm
      intro p hp'
      exact absurd (hp ▸ hp') (Option.not_mem_none p)
    | some p =>
      obtain ⟨-, hstale⟩ := h.pending c p hp
      rw [rising_append (s := s) rfl]
      refine and_congr_right fun _ => ?_
      rw [← hstale, Bool.not_eq_true]
      simp only [hp, Option.mem_some_iff, forall_eq']

theorem rising_sendEncoded {s : Traffic N C} (h : s.Tracked) (c : C) (room : Bool) :
    (s.sendEncoded c room).Rising ↔ s.Rising ∧ s.InTurn (.sendEncoded c room) := by
  unfold sendEncoded
  cases hr : s.fanout with
  | none =>
    refine (and_iff_left ?_).symm
    cases room with
    | false => trivial
    | true => exact fun r hr' => absurd (hr ▸ hr') (Option.not_mem_none r)
  | some r =>
    obtain ⟨-, -, -, hserved⟩ := h.fanout r hr
    show Rising (if c ∈ r.targets then _ else s) ↔ _
    by_cases hc : c ∈ r.targets
    · rw [if_pos hc]
      cases room with
      | false => exact (and_iff_left trivial).symm
      | true =>
        show Rising { s with puts := s.puts ++ [⟨c, r.symbol, r.number, r.frame⟩], .. } ↔ _
        rw [rising_append (s := s) rfl]
        refine and_congr_right fun _ => ?_
        show ¬ s.Got c r.symbol r.number ↔ ∀ r' ∈ s.fanout, c ∈ r'.targets → c ∉ r'.served
        rw [← hserved c hc, hr]
        simp only [Option.mem_some_iff, forall_eq', hc, true_imp_iff]
    · rw [if_neg hc]
      refine (and_iff_left ?_).symm
      cases room with
      | false => trivial
      | true =>
        rintro r' hr' hmem
        rw [hr, Option.mem_some_iff] at hr'
        subst hr'
        exact absurd hmem hc

theorem rising_step {s : Traffic N C} (h : s.Tracked) (call : Call C) :
    (step s call).1.Rising ↔ s.Rising ∧ s.InTurn call := by
  cases call with
  | registerSender c => exact (and_iff_left trivial).symm
  | unregisterSender c =>
    apply Iff.trans _ (and_iff_left trivial).symm
    exact rising_whenIdle (by rfl) c
  | unsubscribe c symbol =>
    apply Iff.trans _ (and_iff_left trivial).symm
    exact rising_whenIdle (by rfl) c
  | subscribe c symbol =>
    apply Iff.trans _ (and_iff_left trivial).symm
    exact rising_whenIdle (by rfl) c
  | sendSnapshot c room => exact rising_sendSnapshot h c room
  | routeOrderbook symbol payload =>
    apply Iff.trans _ (and_iff_left trivial).symm
    show (s.routeOrderbook symbol payload).Rising ↔ s.Rising
    unfold routeOrderbook
    split
    · rfl
    · cases encodeBinary N payload <;> rfl
  | sendEncoded c room => exact rising_sendEncoded h c room

/-- The elements at rising positions, in their order. -/
theorem sublist_of_rising {α : Type*} {l : List α} {ds : List (ℕ × α)}
    (hget : ∀ d ∈ ds, l[d.1]? = some d.2) (hrising : ds.Pairwise fun d d' => d.1 < d'.1) :
    (ds.map Prod.snd).Sublist l := by
  have hlt : ∀ i : Fin ds.length, (ds.get i).1 < l.length := fun i =>
    (List.getElem?_eq_some_iff.mp (hget _ (List.get_mem ds i))).1
  have hlen : (ds.map Prod.snd).length = ds.length := List.length_map _
  apply List.sublist_iff_exists_fin_orderEmbedding_get_eq.mpr
  refine ⟨OrderEmbedding.ofStrictMono (fun i => ⟨(ds.get (i.cast hlen)).1, hlt _⟩) ?_, ?_⟩
  · intro i j hij
    exact List.pairwise_iff_get.mp hrising _ _ hij
  · intro i
    have hi := List.getElem?_eq_some_iff.mp (hget _ (List.get_mem ds (i.cast hlen)))
    simpa using hi.2.symm

/-- Books that rise are queued in the order they were published in. -/
theorem queued_sublist {s : Traffic N C} (h : s.Tracked) (hs : s.Rising) (c : C) (symbol : String) :
    (s.queued c symbol).Sublist (s.books symbol) := by
  set own := s.puts.filter fun d => d.client = c ∧ d.symbol = symbol with hown
  have hmem : ∀ d ∈ own, d ∈ s.puts ∧ d.client = c ∧ d.symbol = symbol := fun d hd => by
    simpa [hown] using hd
  have hrising : (own.map fun d => (d.number, d.symbol, d.frame)).Pairwise
      fun d d' => d.1 < d'.1 := by
    rw [List.pairwise_map]
    refine (hs.sublist List.filter_sublist).imp_of_mem fun {d d'} hd hd' hlt => ?_
    obtain ⟨-, hclient, hsymbol⟩ := hmem d hd
    obtain ⟨-, hclient', hsymbol'⟩ := hmem d' hd'
    exact hlt (hclient.trans hclient'.symm) (hsymbol.trans hsymbol'.symm)
  have hall : (own.map fun d => (d.symbol, d.frame)).Sublist s.published := by
    have hsub := sublist_of_rising (l := s.published) ?_ hrising
    · simpa only [List.map_map, Function.comp_def] using hsub
    · intro numbered hnumbered
      obtain ⟨d, hd, rfl⟩ := List.mem_map.mp hnumbered
      exact (h.put d (hmem d hd).1).1
  have hkeep : ∀ b ∈ own.map fun d => (d.symbol, d.frame), decide (b.1 = symbol) = true := by
    intro b hb
    obtain ⟨d, hd, rfl⟩ := List.mem_map.mp hb
    exact decide_eq_true (hmem d hd).2.2
  have hbooks := (hall.filter fun b => b.1 = symbol).map Prod.snd
  rw [List.filter_eq_self.mpr hkeep, List.map_map] at hbooks
  exact hbooks

/-- The books of every client and symbol rise exactly as long as every send is in turn, and then
they are queued in the order they were published in. -/
theorem rising_iff (run : List (Call C)) :
    ((final step (new : Traffic N C) run).Rising ↔ Along step InTurn (new : Traffic N C) run) ∧
      (Along step InTurn (new : Traffic N C) run → ∀ c symbol,
        ((final step (new : Traffic N C) run).queued c symbol).Sublist
          ((final step (new : Traffic N C) run).books symbol)) := by
  have hiff : (final step (new : Traffic N C) run).Rising ↔
      Along step InTurn (new : Traffic N C) run := by
    apply final_iff_along_of_invariant (J := Tracked) tracked_step
    · exact fun s call h hs hnext => hs ((rising_step h call).mp hnext).1
    · exact fun s call h hs => (rising_step h call).trans (and_iff_right hs)
    · exact tracked_new
    · exact List.Pairwise.nil
  refine ⟨hiff, fun hturn c symbol => ?_⟩
  exact queued_sublist (final_invariant tracked_step run tracked_new) (hiff.mpr hturn) c symbol

/-- Between a subscription's lock and its send, a book is routed and sent. -/
def overtaken (before after : JsonValue) : List (Call ℕ) :=
  [.routeOrderbook "BTC-USDT" before, .subscribe 0 "BTC-USDT", .routeOrderbook "BTC-USDT" after,
    .sendEncoded 0 true, .sendSnapshot 0 true]

theorem queued_overtaken {before after : JsonValue} {f g : Frame N}
    (hf : encodeBinary N before = some f) (hg : encodeBinary N after = some g) :
    (final step (new : Traffic N ℕ) (overtaken before after)).queued 0 "BTC-USDT" = [g, f] ∧
      (final step (new : Traffic N ℕ) (overtaken before after)).books "BTC-USDT" = [f, g] := by
  simp [overtaken, step, next, routeOrderbook, subscribe, sendEncoded, sendSnapshot, whenIdle, new,
    Hub.new, Hub.routeOrderbook, Hub.subscribe, queued, books, hf, hg]

/-- A book of one level a side, at a time. -/
def bookAt (tsNs : Int64) : Publication :=
  .orderbook kucoin "BTC-USDT" tsNs [["100", "1"]] [["101", "2"]]

theorem encodeBinary_bookAt (tsNs : Int64) :
    encodeBinary Floats.whole (bookAt tsNs).payload
      = some (.snapshot tsNs (parseLevels Floats.whole [["100", "1"]])
          (parseLevels Floats.whole [["101", "2"]])) := by
  show (bookAt tsNs).frame Floats.whole = _
  unfold bookAt
  rw [frame_of_depth]
  · rfl
  · decide
  · decide

/-- A client can get an older book after a newer one. -/
theorem not_sublist_of_overtaken :
    ¬ ∀ (run : List (Call ℕ)) (c : ℕ) (symbol : String),
      ((final step (new : Traffic Floats.whole ℕ) run).queued c symbol).Sublist
        ((final step (new : Traffic Floats.whole ℕ) run).books symbol) := by
  intro hall
  have hsub := hall (overtaken (bookAt 1).payload (bookAt 2).payload) 0 "BTC-USDT"
  obtain ⟨hqueued, hbooks⟩ := queued_overtaken (encodeBinary_bookAt 1) (encodeBinary_bookAt 2)
  rw [hqueued, hbooks] at hsub
  have heq := hsub.eq_of_length rfl
  rw [List.cons_eq_cons] at heq
  injection heq.1 with hts
  exact absurd hts (by decide)

end Traffic

end Gateway
end MagnumOpus
