import MagnumOpus.Aggregator.BybitAcks

/-! # Subscription acknowledgements of the KuCoin adapter

`kucoin.go`: symbols are subscribed in batches, each for one feed, by the callers of `Subscribe` and
`AddSymbols`, by the loop that reconnects, and by the watcher of the connection when the
confirmation timer fires.

* **The hope.** `Right`, as for the other adapter.
* **Why it fails.** Symbols are confirmed, not topics; the watcher looks once in the life of a
  connection, and whatever it finds it asks for as order books.
* **When it holds.** Exactly along `Tracked` (`along_right_iff`). -/

namespace MagnumOpus.Aggregator.KucoinAcks

open EventMachine RequestLog
open BybitMux (FeedType Signal addTopic)

/-- A feed of a symbol. -/
abbrev Topic := FeedType × String

/-- The symbols that are subscribed to a feed in one request. -/
abbrev Batch := FeedType × List String

def subBatchSize : ℕ := 100

def feedTopic : FeedType → String
  | .orderBook => "/market/level2"
  | .trade => "/market/match"
  | .other _ => ""

/-- The goroutines that send subscriptions; every call of `Subscribe` or `AddSymbols` is one. -/
inductive Thread where
  | caller (n : ℕ)
  | runLoop
  | confirmWatcher
deriving DecidableEq

/-- Where `runLoop` is. -/
inductive Phase where
  /-- The messages of the connection are read. -/
  | connected
  | closed
  /-- The connection is replaced, and the acknowledgements of the old one are not reset yet. -/
  | dialled
  | reset
  | resubscribing
deriving DecidableEq

structure State where
  rawSyms : List String := []
  feeds : List FeedType := []
  confirmed : List String := []
  phase : Phase := .connected
  /-- The watcher of the connection has not looked yet. -/
  watching : Bool := true
  desk : Desk Thread Batch (List String) Topic

inductive Event where
  /-- `Subscribe` records the symbols and feeds. -/
  | subscribe (symbols : List String) (feeds : List FeedType)
  /-- A call of `Subscribe` goes on to send what is recorded. -/
  | sendSubscriptions (n : ℕ)
  | addSymbols (n : ℕ) (symbols : List String)
  /-- A goroutine takes its next step; whether a write succeeds. -/
  | advance (t : Thread) (ok : Bool)
  /-- A ping takes an identifier. -/
  | nextMsgID
  | ack (msgID : ℕ)
  | drop
  | dial
  | resetAcks
  | resubscribe
  /-- The connection is served again. -/
  | serve
  | confirmTimeout

/-- The feeds that have topics. -/
def topicFeeds (feeds : List FeedType) : List FeedType :=
  feeds.filter fun feed => feedTopic feed ≠ ""

def batches (syms : List String) : List (List String) :=
  (List.range ((syms.length + subBatchSize - 1) / subBatchSize)).map fun i =>
    (syms.drop (i * subBatchSize)).take subBatchSize

/-- The requests for some symbols, in the order in which they are sent. -/
def subscriptions (feeds : List FeedType) (syms : List String) : List Batch :=
  (topicFeeds feeds).flatMap fun feed => (batches syms).map fun batch => (feed, batch)

/-- A request waits under its symbols, beside those that wait already. -/
def protocol : Protocol Batch (List String) Topic where
  entry req := req.2
  keeps _ _ := true
  items req := req.2.map fun sym => (req.1, sym)

/-- The symbols among `symbols` that are not tracked yet. -/
def fresh (s : State) (symbols : List String) : List String :=
  symbols.filter (· ∉ s.rawSyms)

/-- The symbols of all requests that wait. -/
def unconfirmed (s : State) : List String := s.desk.pendingAcks.flatMap Prod.snd

/-- What the watcher asks for when it looks. -/
def retry (s : State) : List Batch :=
  if unconfirmed s = [] then [] else [(.orderBook, unconfirmed s)]

def handleAck (s : State) (msgID : ℕ) : State :=
  match s.desk.pendingAcks.lookup msgID with
  | none => s
  | some syms =>
      { s with
        confirmed := syms.foldl addTopic s.confirmed
        desk := { s.desk with pendingAcks := s.desk.pendingAcks.filter (·.1 ≠ msgID) } }

def emitNeedsSnapshot (s : State) : List Signal :=
  s.confirmed.map fun raw => { symbol := normalize "kucoin" raw, reason := "disconnect" }

/-- A goroutine starts to send, when it is not busy. -/
def begin (s : State) (t : Thread) (reqs : List Batch) : State :=
  if (s.desk.threads t).isIdle then { s with desk := s.desk.setThread t (.ready reqs) } else s

/-- The timer fires while the connection is served and the watcher has nothing left to send. -/
def Timed (s : State) : Prop :=
  s.phase = .connected ∧ (s.desk.threads .confirmWatcher).isIdle

instance (s : State) : Decidable (Timed s) := inferInstanceAs (Decidable (_ ∧ _))

def step : Step State Event Signal := fun s e =>
  match e with
  | .subscribe symbols feeds => ({ s with rawSyms := symbols, feeds }, [])
  | .sendSubscriptions n => (begin s (.caller n) (subscriptions s.feeds s.rawSyms), [])
  | .addSymbols n symbols =>
      if (s.desk.threads (.caller n)).isIdle then
        ({ s with
          rawSyms := s.rawSyms ++ fresh s symbols
          desk := s.desk.setThread (.caller n)
            (.ready (subscriptions s.feeds (fresh s symbols))) }, [])
      else (s, [])
  | .advance t ok => ({ s with desk := s.desk.advance protocol t ok }, [])
  | .nextMsgID =>
      ({ s with desk := { s.desk with msgIDCounter := s.desk.msgIDCounter + 1 } }, [])
  | .ack msgID =>
      if s.phase = .connected then
        let s' := handleAck s msgID
        ({ s' with desk := { s'.desk with log := acknowledge s.desk.log msgID } }, [])
      else (s, [])
  | .drop =>
      if Timed s then
        ({ s with
          phase := .closed
          watching := false
          desk := { s.desk with closed := true, log := {} } }, emitNeedsSnapshot s)
      else (s, [])
  | .dial =>
      if s.phase = .closed then
        ({ s with
          phase := .dialled
          desk := { s.desk with conn := s.desk.conn + 1, closed := false } }, [])
      else (s, [])
  | .resetAcks =>
      if s.phase = .dialled then
        ({ s with phase := .reset, confirmed := [], desk := { s.desk with pendingAcks := [] } }, [])
      else (s, [])
  | .resubscribe =>
      if s.phase = .reset then
        (begin { s with phase := .resubscribing } .runLoop (subscriptions s.feeds s.rawSyms), [])
      else (s, [])
  | .serve =>
      if s.phase = .resubscribing ∧ (s.desk.threads .runLoop).isIdle then
        ({ s with phase := .connected, watching := true }, [])
      else (s, [])
  | .confirmTimeout =>
      if Timed s ∧ s.watching then
        ({ s with
          watching := false
          desk := s.desk.setThread .confirmWatcher (.sending s.desk.conn (retry s)) }, [])
      else (s, [])

/-- The adapter when `Connect` has dialled. -/
def start (id : ℕ) : State where
  desk := { msgIDCounter := id, threads := fun _ => .idle }

/-! ### What should hold -/

/-- The topics that pass for confirmed: those of the symbols that are. -/
def confirmedTopics (s : State) : Set Topic :=
  {x | x.1 ∈ topicFeeds s.feeds ∧ x.2 ∈ s.confirmed}

/-- An acknowledgement confirms what its request asked for and nothing else, and the timer queues
whatever was not acknowledged. -/
def Right (s : State) : Event → Prop
  | .ack msgID => ∀ r ∈ s.desk.log.sent, r.1 = msgID → s.phase = .connected →
      confirmedTopics (step s (.ack msgID)).1 = confirmedTopics s ∪ {x | x ∈ r.2}
  | .confirmTimeout => Timed s → ∀ x ∈ Outstanding s.desk.log,
      ∃ req ∈ ((step s .confirmTimeout).1.desk.threads .confirmWatcher).queue,
        x ∈ protocol.items req
  | _ => True

/-- An acknowledgement is of the one feed there is and its request waits, but for symbols that were
confirmed before; when the timer fires, it does so for the first time on the connection, and what
is unanswered are order books for which a request waits. -/
def Tracked (s : State) : Event → Prop
  | .ack msgID => ∀ r ∈ s.desk.log.sent, r.1 = msgID → s.phase = .connected → ∀ x ∈ r.2,
      x.1 ∈ topicFeeds s.feeds ∧ (x.2 ∈ s.confirmed ∨
        (∃ q ∈ s.desk.pendingAcks, q.1 = msgID) ∧ ∀ feed ∈ topicFeeds s.feeds, feed = x.1)
  | .confirmTimeout => Timed s → ∀ x ∈ Outstanding s.desk.log,
      s.watching ∧ x.1 = .orderBook ∧ ∃ q ∈ s.desk.pendingAcks, x.2 ∈ q.2
  | _ => True

/-- The connection lives: it does not drop, and what the watcher writes on it arrives. -/
def Lives (s : State) : Event → Prop
  | .advance .confirmWatcher ok => s.desk.Arrives .confirmWatcher ok
  | .drop => False
  | _ => True

/-- What the timer queues is sent under a new identifier while the connection lives, by the time
the watcher is done. -/
def Resends : Prop :=
  ∀ (s : State) (req : Batch) (es : List Event), Timed s →
    req ∈ ((step s .confirmTimeout).1.desk.threads .confirmWatcher).queue →
    Along step Lives (step s .confirmTimeout).1 es →
    ((final step (step s .confirmTimeout).1 es).desk.threads .confirmWatcher).isIdle →
    ∃ r ∈ (final step (step s .confirmTimeout).1 es).desk.log.sent,
      s.desk.msgIDCounter < r.1 ∧ r.2 = protocol.items req

variable {s : State}

theorem mem_unconfirmed {sym : String} :
    sym ∈ unconfirmed s ↔ ∃ q ∈ s.desk.pendingAcks, sym ∈ q.2 := by
  simp [unconfirmed]

theorem handleAck_eq (s : State) (msgID : ℕ) :
    (handleAck s msgID = s ∧ ∀ q ∈ s.desk.pendingAcks, q.1 ≠ msgID) ∨
      ∃ syms, (msgID, syms) ∈ s.desk.pendingAcks ∧ handleAck s msgID =
        { s with
          confirmed := syms.foldl addTopic s.confirmed
          desk := { s.desk with pendingAcks := s.desk.pendingAcks.filter (·.1 ≠ msgID) } } := by
  unfold handleAck
  split
  · next h =>
      refine .inl ⟨rfl, fun q hq heq => ?_⟩
      have hne := List.lookup_eq_none_iff.mp h q hq
      simp [heq] at hne
  · next syms h =>
      refine .inr ⟨syms, ?_, rfl⟩
      obtain ⟨xs, ys, heq, -⟩ := List.lookup_eq_some_iff.mp h
      rw [heq]
      exact List.mem_append_right _ List.mem_cons_self

/-! ### What a step does to the desk -/

theorem desk_begin (s : State) (t : Thread) (reqs : List Batch) :
    ((s.desk.threads t).isIdle ∧ (begin s t reqs).desk = s.desk.setThread t (.ready reqs)) ∨
      (begin s t reqs).desk = s.desk := by
  unfold begin
  split
  · next hidle => exact .inl ⟨hidle, rfl⟩
  · exact .inr rfl

theorem shrinks_handleAck (s : State) (msgID : ℕ) :
    s.desk.Shrinks
      { (handleAck s msgID).desk with log := acknowledge s.desk.log msgID } := by
  have hsent : (acknowledge s.desk.log msgID).sent ⊆ s.desk.log.sent := by
    rw [sent_acknowledge]
    exact List.Subset.refl _
  rcases handleAck_eq s msgID with ⟨heq, -⟩ | ⟨syms, -, heq⟩
  · rw [heq]
    exact ⟨le_rfl, List.Subset.refl _, rfl, hsent⟩
  · rw [heq]
    exact ⟨le_rfl, List.filter_subset_self _, rfl, hsent⟩

/-- A goroutine takes a step, an idle one starts to send, or all are left alone.  What was sent is
forgotten only when the connection drops. -/
theorem desk_step (s : State) (e : Event) :
    (∃ t ok, e = .advance t ok ∧ (step s e).1.desk = s.desk.advance protocol t ok) ∨
      (∃ t sender, (s.desk.threads t).isIdle ∧ sender.pending = none ∧
        (step s e).1.desk = s.desk.setThread t sender) ∨
      (s.desk.Shrinks (step s e).1.desk ∧
        (Lives s e → s.desk.log.sent ⊆ (step s e).1.desk.log.sent)) := by
  have hsame : ∀ {s' : State}, s'.desk = s.desk →
      s.desk.Shrinks s'.desk ∧ (Lives s e → s.desk.log.sent ⊆ s'.desk.log.sent) := by
    intro s' heq
    rw [heq]
    exact ⟨Desk.Shrinks.refl _, fun _ => List.Subset.refl _⟩
  have hbegin : ∀ (s' : State) (t : Thread) (reqs : List Batch), s'.desk = s.desk →
      (∃ t' sender, (s.desk.threads t').isIdle ∧ sender.pending = none ∧
        (begin s' t reqs).desk = s.desk.setThread t' sender) ∨
      (s.desk.Shrinks (begin s' t reqs).desk ∧
        (Lives s e → s.desk.log.sent ⊆ (begin s' t reqs).desk.log.sent)) := by
    intro s' t reqs heq
    rcases desk_begin s' t reqs with ⟨hidle, hdesk⟩ | hdesk
    · exact .inl ⟨t, .ready reqs, heq ▸ hidle, rfl, heq ▸ hdesk⟩
    · exact .inr (hsame (hdesk.trans heq))
  cases e with
  | subscribe symbols feeds => exact .inr (.inr (hsame rfl))
  | sendSubscriptions n =>
      exact .inr (hbegin s (.caller n) (subscriptions s.feeds s.rawSyms) rfl)
  | addSymbols n symbols =>
      unfold step
      dsimp only
      split
      · next hidle => exact .inr (.inl ⟨.caller n, _, hidle, rfl, rfl⟩)
      · exact .inr (.inr (hsame rfl))
  | advance t ok => exact .inl ⟨t, ok, rfl, rfl⟩
  | nextMsgID =>
      exact .inr (.inr ⟨⟨Nat.le_succ _, List.Subset.refl _, rfl, List.Subset.refl _⟩,
        fun _ => List.Subset.refl _⟩)
  | ack msgID =>
      unfold step
      dsimp only
      split
      · refine .inr (.inr ⟨shrinks_handleAck s msgID, fun _ => ?_⟩)
        rw [sent_acknowledge]
        exact List.Subset.refl _
      · exact .inr (.inr (hsame rfl))
  | drop =>
      unfold step
      dsimp only
      split
      · exact .inr (.inr ⟨⟨le_rfl, List.Subset.refl _, rfl, List.nil_subset _⟩,
          fun hlives => hlives.elim⟩)
      · exact .inr (.inr (hsame rfl))
  | dial =>
      unfold step
      dsimp only
      split
      · exact .inr (.inr ⟨⟨le_rfl, List.Subset.refl _, rfl, List.Subset.refl _⟩,
          fun _ => List.Subset.refl _⟩)
      · exact .inr (.inr (hsame rfl))
  | resetAcks =>
      unfold step
      dsimp only
      split
      · exact .inr (.inr ⟨⟨le_rfl, List.nil_subset _, rfl, List.Subset.refl _⟩,
          fun _ => List.Subset.refl _⟩)
      · exact .inr (.inr (hsame rfl))
  | resubscribe =>
      unfold step
      dsimp only
      split
      · exact .inr (hbegin { s with phase := .resubscribing } .runLoop
          (subscriptions s.feeds s.rawSyms) rfl)
      · exact .inr (.inr (hsame rfl))
  | serve =>
      unfold step
      dsimp only
      split
      · exact .inr (.inr (hsame rfl))
      · exact .inr (.inr (hsame rfl))
  | confirmTimeout =>
      unfold step
      dsimp only
      split
      · next hlook => exact .inr (.inl ⟨.confirmWatcher, _, hlook.1.2, rfl, rfl⟩)
      · exact .inr (.inr (hsame rfl))

/-! ### The table agrees with what was asked -/

/-- The table agrees with the requests that were entered. -/
def Inv (s : State) : Prop := s.desk.Inv protocol fun _ => True

theorem Inv.step (h : Inv s) (e : Event) : Inv (step s e).1 := by
  unfold Inv
  rcases desk_step s e with ⟨t, ok, -, heq⟩ | ⟨t, sender, -, hpending, heq⟩ | ⟨hshrinks, -⟩
  · rw [heq]
    exact h.advance t ok
  · rw [heq]
    exact h.setThread t sender (fun _ _ => trivial) hpending
  · exact h.shrinks hshrinks

theorem inv_start (id : ℕ) : Inv (start id) where
  queued := fun _ _ _ => trivial
  numbered := fun q hq => absurd hq List.not_mem_nil
  entered := by
    intro t p hp
    cases hp
  sent := fun r hr => absurd hr List.not_mem_nil

/-! ### When acknowledgements are tracked -/

theorem mem_confirmedTopics {x : Topic} :
    x ∈ confirmedTopics s ↔ x.1 ∈ topicFeeds s.feeds ∧ x.2 ∈ s.confirmed := Iff.rfl

/-- An acknowledgement that finds its request confirms all topics of its symbols, and one that does
not find it confirms nothing. -/
theorem confirmedTopics_ack (hphase : s.phase = .connected) {msgID : ℕ} {req : Batch}
    (hreq : s.desk.Known protocol (fun _ => True) msgID req) (y : Topic) :
    y ∈ confirmedTopics (step s (.ack msgID)).1 ↔ y.1 ∈ topicFeeds s.feeds ∧
      (y.2 ∈ s.confirmed ∨ (∃ q ∈ s.desk.pendingAcks, q.1 = msgID) ∧ y.2 ∈ req.2) := by
  have hstep : confirmedTopics (step s (.ack msgID)).1 = confirmedTopics (handleAck s msgID) := by
    unfold KucoinAcks.step
    dsimp only
    rw [if_pos hphase]
    rfl
  rw [hstep]
  rcases handleAck_eq s msgID with ⟨heq, hnone⟩ | ⟨syms, hsyms, heq⟩
  · rw [heq, mem_confirmedTopics]
    refine and_congr_right fun _ => ⟨.inl, ?_⟩
    rintro (hy | ⟨⟨q, hq, hid⟩, -⟩)
    · exact hy
    · exact absurd hid (hnone q hq)
  · obtain rfl : syms = req.2 := hreq.waits _ hsyms rfl
    have hwaits : ∃ q ∈ s.desk.pendingAcks, q.1 = msgID := ⟨_, hsyms, rfl⟩
    rw [heq, mem_confirmedTopics, and_iff_right hwaits]
    exact and_congr_right fun _ => BybitMux.mem_foldl_addTopic _ _

theorem mem_items {req : Batch} {x : Topic} :
    x ∈ protocol.items req ↔ x.1 = req.1 ∧ x.2 ∈ req.2 := by
  constructor
  · intro h
    obtain ⟨sym, hsym, rfl⟩ := List.mem_map.mp h
    exact ⟨rfl, hsym⟩
  · rintro ⟨hfeed, hsym⟩
    exact List.mem_map.mpr ⟨x.2, hsym, Prod.ext hfeed.symm rfl⟩

theorem right_ack_iff (h : Inv s) (msgID : ℕ) :
    Right s (.ack msgID) ↔ Tracked s (.ack msgID) := by
  refine forall_congr' fun r => forall_congr' fun hr => forall_congr' fun hid =>
    forall_congr' fun hphase => ?_
  obtain ⟨req, hreq, hknown⟩ := h.sent r hr
  rw [hid] at hknown
  rw [hreq, Set.ext_iff]
  constructor
  · intro hall x hx
    have hself := (confirmedTopics_ack hphase hknown x).mp ((hall x).mpr (.inr hx))
    refine ⟨hself.1, ?_⟩
    by_cases hconfirmed : x.2 ∈ s.confirmed
    · exact .inl hconfirmed
    · obtain ⟨hwaits, hsym⟩ := hself.2.resolve_left hconfirmed
      refine .inr ⟨hwaits, fun feed hfeed => ?_⟩
      have hother := (hall (feed, x.2)).mp
        ((confirmedTopics_ack hphase hknown _).mpr ⟨hfeed, .inr ⟨hwaits, hsym⟩⟩)
      rcases hother with hother | hother
      · exact absurd hother.2 hconfirmed
      · exact (mem_items.mp hother).1.trans (mem_items.mp hx).1.symm
  · intro hok y
    rw [confirmedTopics_ack hphase hknown, Set.mem_union, mem_confirmedTopics, Set.mem_ofPred_eq]
    constructor
    · rintro ⟨hfeed, hy | ⟨hwaits, hy⟩⟩
      · exact .inl ⟨hfeed, hy⟩
      · rcases (hok (req.1, y.2) (mem_items.mpr ⟨rfl, hy⟩)).2 with hconfirmed | ⟨-, hall⟩
        · exact .inl ⟨hfeed, hconfirmed⟩
        · exact .inr (mem_items.mpr ⟨hall _ hfeed, hy⟩)
    · rintro (⟨hfeed, hy⟩ | hy)
      · exact ⟨hfeed, .inl hy⟩
      · obtain ⟨hfeed, hconfirmed | ⟨hwaits, -⟩⟩ := hok y hy
        · exact ⟨hfeed, .inl hconfirmed⟩
        · exact ⟨hfeed, .inr ⟨hwaits, (mem_items.mp hy).2⟩⟩

theorem step_confirmTimeout (htimed : Timed s) (hwatching : s.watching = true) :
    (step s .confirmTimeout).1 = { s with
      watching := false
      desk := s.desk.setThread .confirmWatcher (.sending s.desk.conn (retry s)) } := by
  unfold KucoinAcks.step
  dsimp only
  rw [if_pos ⟨htimed, hwatching⟩]

/-- What the timer queues: the order books of the symbols of which a request waits, the first
time. -/
theorem queue_confirmTimeout (htimed : Timed s) {x : Topic} :
    (∃ req ∈ ((step s .confirmTimeout).1.desk.threads .confirmWatcher).queue,
        x ∈ protocol.items req) ↔
      s.watching ∧ x.1 = .orderBook ∧ ∃ q ∈ s.desk.pendingAcks, x.2 ∈ q.2 := by
  rw [← mem_unconfirmed]
  by_cases hwatching : s.watching
  · rw [step_confirmTimeout htimed hwatching, Desk.setThread_self, Sender.queue_sending, retry,
      and_iff_right hwatching]
    split
    · next hnil => simp [hnil]
    · simp [mem_items]
  · have hstep : step s .confirmTimeout = (s, []) := if_neg fun h => hwatching h.2
    rw [hstep]
    refine iff_of_false ?_ fun h => hwatching h.1
    rintro ⟨req, hreq, -⟩
    have hbusy := Sender.isIdle_of_mem_queue hreq
    exact absurd (htimed.2.symm.trans hbusy) Bool.true_eq_false.mp

theorem right_iff_tracked (h : Inv s) (e : Event) : Right s e ↔ Tracked s e := by
  cases e with
  | ack msgID => exact right_ack_iff h msgID
  | confirmTimeout =>
      exact forall_congr' fun htimed => forall_congr' fun x => forall_congr' fun _ =>
        queue_confirmTimeout htimed
  | _ => exact Iff.rfl

/-- The acknowledgements of the adapter are right exactly along the runs in which they are
tracked. -/
theorem along_right_iff (id : ℕ) (es : List Event) :
    Along step Right (start id) es ↔ Along step Tracked (start id) es :=
  along_iff_along (fun _ e h => ⟨right_iff_tracked h e, fun _ => h.step e⟩) es (inv_start id)

/-! ### What is queued is sent -/

theorem resent_step {n : ℕ} {req : Batch} (h : s.desk.Resent protocol .confirmWatcher n req)
    {e : Event} (hlives : Lives s e) :
    (step s e).1.desk.Resent protocol .confirmWatcher n req := by
  rcases desk_step s e with ⟨t, ok, rfl, heq⟩ | ⟨t, sender, hidle, -, heq⟩ | ⟨hshrinks, hlog⟩
  · rw [heq]
    by_cases ht : t = .confirmWatcher
    · subst ht
      exact h.advance hlives
    · exact h.advance_of_ne ht ok
  · rw [heq]
    exact h.setThread hidle sender
  · exact h.frame (hlog hlives) fun _ => ⟨congrFun hshrinks.threads _, hshrinks.grows⟩

theorem resends : Resends := by
  intro s req es htimed hreq hlives hdone
  have hwatching : s.watching = true := by
    by_contra hwatching
    have hstep : step s .confirmTimeout = (s, []) := if_neg fun h => hwatching h.2
    rw [hstep] at hreq
    have hbusy := Sender.isIdle_of_mem_queue hreq
    exact absurd (htimed.2.symm.trans hbusy) Bool.true_eq_false.mp
  have hstart : (step s .confirmTimeout).1.desk.Resent protocol .confirmWatcher
      s.desk.msgIDCounter req := by
    refine .inl ⟨hreq, ?_, ?_⟩
    · rw [step_confirmTimeout htimed hwatching]
      exact le_rfl
    · intro p hp
      rw [step_confirmTimeout htimed hwatching, Desk.setThread_self] at hp
      cases hp
  have hstep : ∀ s' e, s'.desk.Resent protocol .confirmWatcher s.desk.msgIDCounter req →
      Lives s' e → (step s' e).1.desk.Resent protocol .confirmWatcher s.desk.msgIDCounter req :=
    fun s' e h hl => resent_step h hl
  have hend := final_invariant_along hstep es hstart hlives
  exact hend.sent hdone

/-! ### Both adapters -/

/-- **Acknowledgements.**  In both adapters they are right exactly along the runs in which they
are tracked, and what the timer queues is sent while the connection lives. -/
theorem acks_right_iff (feeds : List FeedType) (syms : List String) (reqID msgID : ℕ)
    (bybitRun : List BybitAcks.Event) (kucoinRun : List Event) :
    ((Along (BybitAcks.step feeds) (BybitAcks.Right feeds) (BybitAcks.start feeds syms reqID)
          bybitRun ↔
        Along (BybitAcks.step feeds) (BybitAcks.Tracked feeds) (BybitAcks.start feeds syms reqID)
          bybitRun) ∧
      BybitAcks.Resends feeds) ∧
    (Along step Right (start msgID) kucoinRun ↔ Along step Tracked (start msgID) kucoinRun) ∧
    Resends :=
  ⟨⟨BybitAcks.along_right_iff feeds syms reqID bybitRun, BybitAcks.resends feeds⟩,
    along_right_iff msgID kucoinRun, resends⟩

/-- Both feeds of a symbol are subscribed on Bybit, and the second request is acknowledged. -/
def bybitBothFeeds : List BybitAcks.Event :=
  List.replicate 6 (.advance .connect true) ++ [.ack 2]

/-- The request for the order book is not in the table any more, so it is never sent again. -/
theorem orderBook_not_resent :
    ¬ Along (BybitAcks.step [.orderBook, .trade]) (BybitAcks.Right [.orderBook, .trade])
      (BybitAcks.start [.orderBook, .trade] ["BTCUSDT"] 0) (bybitBothFeeds ++ [.confirmTimeout]) := by
  intro h
  have hright := (along_append.mp h).2.1
  have hlog : (final (BybitAcks.step [.orderBook, .trade])
      (BybitAcks.start [.orderBook, .trade] ["BTCUSDT"] 0) bybitBothFeeds).desk.log =
        { sent := [(2, [(.trade, "BTCUSDT")]), (1, [(.orderBook, "BTCUSDT")])], acked := [2] } := by
    decide
  have hout : (FeedType.orderBook, "BTCUSDT") ∈ Outstanding (final
      (BybitAcks.step [.orderBook, .trade])
      (BybitAcks.start [.orderBook, .trade] ["BTCUSDT"] 0) bybitBothFeeds).desk.log := by
    rw [hlog]
    simp [Outstanding, Answered]
  exact absurd (hright (by decide) _ hout) (by decide)

/-- Both feeds of a symbol are subscribed on KuCoin. -/
def kucoinBothFeeds : List Event :=
  [.subscribe ["BTC-USDT"] [.orderBook, .trade], .sendSubscriptions 0] ++
    List.replicate 6 (.advance (.caller 0) true)

/-- When the timer fires, the trades are not asked for again. -/
theorem trades_not_resent :
    ¬ Along step Right (start 0) (kucoinBothFeeds ++ [.confirmTimeout]) := by
  intro h
  have hright := (along_append.mp h).2.1
  have hlog : (final step (start 0) kucoinBothFeeds).desk.log =
      { sent := [(2, [(.trade, "BTC-USDT")]), (1, [(.orderBook, "BTC-USDT")])] } := by
    decide
  have hout : (FeedType.trade, "BTC-USDT") ∈
      Outstanding (final step (start 0) kucoinBothFeeds).desk.log := by
    rw [hlog]
    simp [Outstanding, Answered]
  obtain ⟨req, hreq, hx⟩ := hright (by decide) _ hout
  have hqueue : ((step (final step (start 0) kucoinBothFeeds) .confirmTimeout).1.desk.threads
      .confirmWatcher).queue = [(.orderBook, ["BTC-USDT", "BTC-USDT"])] := by
    decide
  rw [hqueue, List.mem_singleton] at hreq
  rw [hreq, mem_items] at hx
  exact absurd hx.1 (by decide)

theorem topics_not_resent :
    (¬ Along (BybitAcks.step [.orderBook, .trade]) (BybitAcks.Right [.orderBook, .trade])
      (BybitAcks.start [.orderBook, .trade] ["BTCUSDT"] 0)
      (bybitBothFeeds ++ [.confirmTimeout])) ∧
    ¬ Along step Right (start 0) (kucoinBothFeeds ++ [.confirmTimeout]) :=
  ⟨orderBook_not_resent, trades_not_resent⟩

end MagnumOpus.Aggregator.KucoinAcks
