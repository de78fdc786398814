import MagnumOpus.Lib.RequestLog
import MagnumOpus.Aggregator.BybitMux

/-! # Subscription acknowledgements of the Bybit multiplexer

`mux.go` again, one slot in finer steps: three goroutines send subscribe requests on its connection,
and each request is first entered among those that wait for their acknowledgement, then written.

* **The hope.** `Right`: an acknowledgement confirms the topic of its request and no other, and what
  was never acknowledged is queued for its feed again when the confirmation timer fires.
* **Why it fails.** The table of waiting requests and the set of confirmed symbols know symbols, not
  topics: entering the request of one feed takes the request of the other feed out.
* **When it holds.** Exactly along `Tracked` (`along_right_iff`). -/

namespace MagnumOpus.Aggregator.BybitAcks

open EventMachine RequestLog BybitMux

/-- A feed of a symbol. -/
abbrev Topic := FeedType × String

/-- The goroutines that send subscriptions of a slot. -/
inductive Thread where
  | connect
  | runSlot
  | confirmWatcher
deriving DecidableEq

structure State where
  syms : List String
  /-- The symbols that are confirmed on the connection. -/
  confirmed : List String := []
  desk : Desk Thread Topic String Topic

inductive Event where
  /-- A goroutine takes its next step; whether a write succeeds. -/
  | advance (t : Thread) (ok : Bool)
  /-- Another slot takes an identifier. -/
  | nextMsgID
  | ack (reqID : ℕ)
  | drop
  | dial
  | confirmTimeout

/-- The subscriptions of some symbols, in the order in which they are sent. -/
def subscriptions (feeds : List FeedType) (syms : List String) : List Topic :=
  (topicFeeds feeds).flatMap fun feed => syms.map fun sym => (feed, sym)

/-- A request waits under its symbol; entering it clears the requests of the symbol from previous
cycles. -/
def protocol : Protocol Topic String Topic where
  entry topic := topic.2
  keeps topic sym := sym ≠ topic.2
  items topic := [topic]

/-- The slot as the multiplexer has it. -/
def slot (s : State) : Slot :=
  { syms := s.syms, confirmed := s.confirmed, pendingAcks := s.desk.pendingAcks }

/-- The messages of the connection are read: it is open and its subscriptions are sent. -/
def reading (s : State) : Bool := !s.desk.closed && (s.desk.threads .runSlot).isIdle

def step (feeds : List FeedType) : Step State Event Signal := fun s e =>
  match e with
  | .advance t ok => ({ s with desk := s.desk.advance protocol t ok }, [])
  | .nextMsgID =>
      ({ s with desk := { s.desk with msgIDCounter := s.desk.msgIDCounter + 1 } }, [])
  | .ack reqID =>
      if reading s then
        let acked := handleAck (slot s) reqID
        ({ s with
          confirmed := acked.confirmed
          desk := { s.desk with
            pendingAcks := acked.pendingAcks
            log := acknowledge s.desk.log reqID } }, [])
      else (s, [])
  | .drop =>
      if reading s then
        let reset := resetAcks (slot s)
        ({ s with
          confirmed := reset.confirmed
          desk := { s.desk with closed := true, pendingAcks := reset.pendingAcks, log := {} } },
          emitNeedsSnapshot (slot s))
      else (s, [])
  | .dial =>
      if s.desk.closed then
        ({ s with
          desk := { s.desk.setThread .runSlot (.ready (subscriptions feeds s.syms)) with
            conn := s.desk.conn + 1
            closed := false } }, [])
      else (s, [])
  | .confirmTimeout =>
      if (s.desk.threads .confirmWatcher).isIdle then
        let unanswered := unconfirmed (slot s)
        ({ s with
          desk := s.desk.setThread .confirmWatcher (.ready (subscriptions feeds unanswered)) }, [])
      else (s, [])

/-- The slot when its connection is dialled and its symbols are about to be subscribed. -/
def start (feeds : List FeedType) (syms : List String) (id : ℕ) : State where
  syms := syms
  desk :=
    { msgIDCounter := id
      threads := fun
        | .connect => .ready (subscriptions feeds syms)
        | .runSlot => .idle
        | .confirmWatcher => .idle }

/-! ### What should hold -/

/-- The topics that pass for confirmed: those of the symbols that are. -/
def confirmedTopics (feeds : List FeedType) (s : State) : Set Topic :=
  {x | x.1 ∈ topicFeeds feeds ∧ x.2 ∈ s.confirmed}

/-- An acknowledgement confirms what its request asked for and nothing else, and the timer queues
whatever was not acknowledged. -/
def Right (feeds : List FeedType) (s : State) : Event → Prop
  | .ack reqID => ∀ r ∈ s.desk.log.sent, r.1 = reqID → reading s →
      confirmedTopics feeds (step feeds s (.ack reqID)).1 =
        confirmedTopics feeds s ∪ {x | x ∈ r.2}
  | .confirmTimeout => (s.desk.threads .confirmWatcher).isIdle → ∀ x ∈ Outstanding s.desk.log,
      x ∈ ((step feeds s .confirmTimeout).1.desk.threads .confirmWatcher).queue
  | _ => True

/-- An acknowledgement is of the one feed there is and its request is the newest of its symbol,
unless the symbol was confirmed before; when the timer fires, a request waits for each symbol with
an unanswered one. -/
def Tracked (feeds : List FeedType) (s : State) : Event → Prop
  | .ack reqID => ∀ r ∈ s.desk.log.sent, r.1 = reqID → reading s → ∀ x ∈ r.2,
      x.2 ∈ s.confirmed ∨
        (∃ q ∈ s.desk.pendingAcks, q.1 = reqID) ∧ ∀ feed ∈ topicFeeds feeds, feed = x.1
  | .confirmTimeout => (s.desk.threads .confirmWatcher).isIdle → ∀ x ∈ Outstanding s.desk.log,
      ∃ q ∈ s.desk.pendingAcks, q.2 = x.2
  | _ => True

/-- The connection lives: it does not drop, and what the watcher writes on it arrives. -/
def Lives (s : State) : Event → Prop
  | .advance .confirmWatcher ok => s.desk.Arrives .confirmWatcher ok
  | .drop => False
  | _ => True

/-- What the timer queues is sent under a new identifier while the connection lives, by the time
the watcher waits again. -/
def Resends (feeds : List FeedType) : Prop :=
  ∀ (s : State) (x : Topic) (es : List Event), (s.desk.threads .confirmWatcher).isIdle →
    x ∈ ((step feeds s .confirmTimeout).1.desk.threads .confirmWatcher).queue →
    Along (step feeds) Lives (step feeds s .confirmTimeout).1 es →
    ((final (step feeds) (step feeds s .confirmTimeout).1 es).desk.threads
      .confirmWatcher).isIdle →
    ∃ r ∈ (final (step feeds) (step feeds s .confirmTimeout).1 es).desk.log.sent,
      s.desk.msgIDCounter < r.1 ∧ r.2 = protocol.items x

variable {feeds : List FeedType} {syms : List String} {s : State}

theorem mem_subscriptions {x : Topic} :
    x ∈ subscriptions feeds syms ↔ x.1 ∈ topicFeeds feeds ∧ x.2 ∈ syms := by
  constructor
  · intro h
    obtain ⟨feed, hfeed, hx⟩ := List.mem_flatMap.mp h
    obtain ⟨sym, hsym, rfl⟩ := List.mem_map.mp hx
    exact ⟨hfeed, hsym⟩
  · rintro ⟨hfeed, hsym⟩
    exact List.mem_flatMap.mpr ⟨x.1, hfeed, List.mem_map.mpr ⟨x.2, hsym, rfl⟩⟩

theorem mem_addTopic {topics : List String} {topic x : String} :
    x ∈ addTopic topics topic ↔ x ∈ topics ∨ x = topic := by
  unfold addTopic
  split
  · next h =>
      constructor
      · exact .inl
      · rintro (hx | rfl)
        · exact hx
        · exact h
  · rw [List.mem_append, List.mem_singleton]

theorem mem_unconfirmed {s : Slot} {sym : String} :
    sym ∈ unconfirmed s ↔ sym ∈ s.syms ∧ ∃ q ∈ s.pendingAcks, q.2 = sym := by
  simp [unconfirmed]

theorem handleAck_eq (s : Slot) (reqID : ℕ) :
    (handleAck s reqID = s ∧ ∀ q ∈ s.pendingAcks, q.1 ≠ reqID) ∨
      ∃ sym, (reqID, sym) ∈ s.pendingAcks ∧ handleAck s reqID =
        { s with
          confirmed := addTopic s.confirmed sym
          pendingAcks := s.pendingAcks.filter (·.1 ≠ reqID) } := by
  unfold handleAck
  split
  · next h =>
      refine .inl ⟨rfl, fun q hq heq => ?_⟩
      have hne := List.lookup_eq_none_iff.mp h q hq
      simp [heq] at hne
  · next sym h =>
      refine .inr ⟨sym, ?_, rfl⟩
      obtain ⟨xs, ys, heq, -⟩ := List.lookup_eq_some_iff.mp h
      rw [heq]
      exact List.mem_append_right _ List.mem_cons_self

theorem pendingAcks_handleAck (s : Slot) (reqID : ℕ) :
    (handleAck s reqID).pendingAcks ⊆ s.pendingAcks := by
  rcases handleAck_eq s reqID with ⟨heq, -⟩ | ⟨sym, -, heq⟩
  · rw [heq]
    exact List.Subset.refl _
  · rw [heq]
    exact List.filter_subset_self _

/-! ### The table agrees with what was asked -/

/-- A topic of the slot. -/
def Subscribed (feeds : List FeedType) (syms : List String) (x : Topic) : Prop :=
  x.1 ∈ topicFeeds feeds ∧ x.2 ∈ syms

/-- The slot has the symbols `syms`, and its table agrees with the requests for their topics. -/
structure Inv (feeds : List FeedType) (syms : List String) (s : State) : Prop where
  syms_eq : s.syms = syms
  desk : s.desk.Inv protocol (Subscribed feeds syms)

theorem Inv.step (h : Inv feeds syms s) (e : Event) : Inv feeds syms (step feeds s e).1 := by
  obtain ⟨hsyms, hdesk⟩ := h
  cases e with
  | advance t ok => exact ⟨hsyms, hdesk.advance t ok⟩
  | nextMsgID =>
      exact ⟨hsyms, hdesk.shrinks
        ⟨Nat.le_succ _, List.Subset.refl _, rfl, List.Subset.refl _⟩⟩
  | ack reqID =>
      unfold BybitAcks.step
      dsimp only
      split
      · refine ⟨hsyms, hdesk.shrinks ⟨le_rfl, pendingAcks_handleAck (slot s) reqID, rfl, ?_⟩⟩
        rw [sent_acknowledge]
        exact List.Subset.refl _
      · exact ⟨hsyms, hdesk⟩
  | drop =>
      unfold BybitAcks.step
      dsimp only
      split
      · exact ⟨hsyms, hdesk.shrinks ⟨le_rfl, List.nil_subset _, rfl, List.nil_subset _⟩⟩
      · exact ⟨hsyms, hdesk⟩
  | dial =>
      unfold BybitAcks.step
      dsimp only
      split
      · have hready := hdesk.setThread .runSlot (.ready (subscriptions feeds s.syms))
          (fun x hx => hsyms ▸ mem_subscriptions.mp hx) rfl
        exact ⟨hsyms, hready.shrinks ⟨le_rfl, List.Subset.refl _, rfl, List.Subset.refl _⟩⟩
      · exact ⟨hsyms, hdesk⟩
  | confirmTimeout =>
      unfold BybitAcks.step
      dsimp only
      split
      · refine ⟨hsyms, hdesk.setThread .confirmWatcher _ (fun x hx => ?_) rfl⟩
        obtain ⟨hfeed, hsym⟩ := mem_subscriptions.mp hx
        exact ⟨hfeed, hsyms ▸ (mem_unconfirmed.mp hsym).1⟩
      · exact ⟨hsyms, hdesk⟩

theorem inv_start (feeds : List FeedType) (syms : List String) (id : ℕ) :
    Inv feeds syms (start feeds syms id) where
  syms_eq := rfl
  desk :=
    { queued := by
        intro t x hx
        cases t with
        | connect => exact mem_subscriptions.mp hx
        | runSlot => cases hx
        | confirmWatcher => cases hx
      numbered := fun q hq => absurd hq List.not_mem_nil
      entered := by
        intro t p hp
        cases t with
        | connect => cases hp
        | runSlot => cases hp
        | confirmWatcher => cases hp
      sent := fun r hr => absurd hr List.not_mem_nil }

/-! ### When acknowledgements are tracked -/

theorem mem_confirmedTopics {x : Topic} :
    x ∈ confirmedTopics feeds s ↔ x.1 ∈ topicFeeds feeds ∧ x.2 ∈ s.confirmed := Iff.rfl

/-- An acknowledgement that finds its request confirms all topics of the symbol, and one that does
not find it confirms nothing. -/
theorem confirmedTopics_ack (hreading : reading s) {reqID : ℕ} {x : Topic}
    (hx : s.desk.Known protocol (Subscribed feeds syms) reqID x) (y : Topic) :
    y ∈ confirmedTopics feeds (step feeds s (.ack reqID)).1 ↔ y.1 ∈ topicFeeds feeds ∧
      (y.2 ∈ s.confirmed ∨ (∃ q ∈ s.desk.pendingAcks, q.1 = reqID) ∧ y.2 = x.2) := by
  have hconfirmed : (step feeds s (.ack reqID)).1.confirmed =
      (handleAck (slot s) reqID).confirmed := by
    unfold BybitAcks.step
    dsimp only
    rw [if_pos hreading]
  rw [mem_confirmedTopics, hconfirmed]
  refine and_congr_right fun _ => ?_
  rcases handleAck_eq (slot s) reqID with ⟨heq, hnone⟩ | ⟨sym, hsym, heq⟩
  · rw [heq]
    constructor
    · exact .inl
    · rintro (hy | ⟨⟨q, hq, hid⟩, -⟩)
      · exact hy
      · exact absurd hid (hnone q hq)
  · obtain rfl : sym = x.2 := hx.waits _ hsym rfl
    have hwaits : ∃ q ∈ s.desk.pendingAcks, q.1 = reqID := ⟨_, hsym, rfl⟩
    rw [heq, and_iff_right hwaits]
    exact mem_addTopic

theorem desk_confirmTimeout (hidle : (s.desk.threads .confirmWatcher).isIdle) :
    (step feeds s .confirmTimeout).1.desk = s.desk.setThread .confirmWatcher
      (.ready (subscriptions feeds (unconfirmed (slot s)))) := by
  unfold BybitAcks.step
  dsimp only
  rw [if_pos hidle]

/-- What the timer queues: all topics of the symbols of which a request waits. -/
theorem queue_confirmTimeout (hidle : (s.desk.threads .confirmWatcher).isIdle) {x : Topic}
    (hx : Subscribed feeds s.syms x) :
    x ∈ ((step feeds s .confirmTimeout).1.desk.threads .confirmWatcher).queue ↔
      ∃ q ∈ s.desk.pendingAcks, q.2 = x.2 := by
  rw [desk_confirmTimeout hidle, Desk.setThread_self, Sender.queue_ready, mem_subscriptions,
    mem_unconfirmed]
  exact ⟨fun h => h.2.2, fun h => ⟨hx.1, hx.2, h⟩⟩

theorem right_ack_iff (h : Inv feeds syms s) (reqID : ℕ) :
    Right feeds s (.ack reqID) ↔ Tracked feeds s (.ack reqID) := by
  refine forall_congr' fun r => forall_congr' fun hr => forall_congr' fun hid =>
    forall_congr' fun hreading => ?_
  obtain ⟨x, hx, hknown⟩ := h.desk.sent r hr
  rw [hid] at hknown
  rw [hx, protocol, List.forall_mem_singleton, Set.ext_iff]
  constructor
  · intro hall
    by_cases hconfirmed : x.2 ∈ s.confirmed
    · exact .inl hconfirmed
    · have hself := (hall x).mpr (.inr (List.mem_singleton.mpr rfl))
      rw [confirmedTopics_ack hreading hknown] at hself
      have hwaits := (hself.2.resolve_left hconfirmed).1
      refine .inr ⟨hwaits, fun feed hfeed => ?_⟩
      have hother := (hall (feed, x.2)).mp
        ((confirmedTopics_ack hreading hknown _).mpr ⟨hfeed, .inr ⟨hwaits, rfl⟩⟩)
      rcases hother with hother | hother
      · exact absurd hother.2 hconfirmed
      · exact congrArg Prod.fst (List.mem_singleton.mp hother)
  · intro hok y
    rw [confirmedTopics_ack hreading hknown, Set.mem_union, mem_confirmedTopics, Set.mem_ofPred_eq,
      List.mem_singleton]
    constructor
    · rintro ⟨hfeed, hy | ⟨hwaits, hy⟩⟩
      · exact .inl ⟨hfeed, hy⟩
      · rcases hok with hconfirmed | ⟨-, hall⟩
        · exact .inl ⟨hfeed, hy ▸ hconfirmed⟩
        · exact .inr (Prod.ext (hall _ hfeed) hy)
    · rintro (⟨hfeed, hy⟩ | rfl)
      · exact ⟨hfeed, .inl hy⟩
      · rcases hok with hconfirmed | ⟨hwaits, -⟩
        · exact ⟨hknown.asked.1, .inl hconfirmed⟩
        · exact ⟨hknown.asked.1, .inr ⟨hwaits, rfl⟩⟩

theorem right_iff_tracked (h : Inv feeds syms s) (e : Event) :
    Right feeds s e ↔ Tracked feeds s e := by
  cases e with
  | ack reqID => exact right_ack_iff h reqID
  | confirmTimeout =>
      refine forall_congr' fun hidle => forall_congr' fun x => forall_congr' fun hx => ?_
      obtain ⟨⟨r, hr, hxr⟩, -⟩ := hx
      obtain ⟨y, hy, hknown⟩ := h.desk.sent r hr
      obtain rfl : x = y := by rwa [hy, protocol, List.mem_singleton] at hxr
      exact queue_confirmTimeout hidle (h.syms_eq ▸ hknown.asked)
  | advance t ok => exact Iff.rfl
  | nextMsgID => exact Iff.rfl
  | drop => exact Iff.rfl
  | dial => exact Iff.rfl

/-- The acknowledgements of a slot are right exactly along the runs in which they are tracked. -/
theorem along_right_iff (feeds : List FeedType) (syms : List String) (id : ℕ) (es : List Event) :
    Along (step feeds) (Right feeds) (start feeds syms id) es ↔
      Along (step feeds) (Tracked feeds) (start feeds syms id) es :=
  along_iff_along (fun _ e h => ⟨right_iff_tracked h e, fun _ => h.step e⟩) es
    (inv_start feeds syms id)

/-! ### What is queued is sent -/

theorem resent_step {n : ℕ} {x : Topic} (h : s.desk.Resent protocol .confirmWatcher n x) {e : Event}
    (hlives : Lives s e) : (step feeds s e).1.desk.Resent protocol .confirmWatcher n x := by
  cases e with
  | advance t ok =>
      by_cases ht : t = .confirmWatcher
      · subst ht
        exact h.advance hlives
      · exact h.advance_of_ne ht ok
  | nextMsgID => exact h.frame (List.Subset.refl _) fun _ => ⟨rfl, Nat.le_succ _⟩
  | ack reqID =>
      unfold step
      dsimp only
      split
      · refine h.frame ?_ fun _ => ⟨rfl, le_rfl⟩
        rw [sent_acknowledge]
        exact List.Subset.refl _
      · exact h
  | drop => exact hlives.elim
  | dial =>
      have hne : Thread.confirmWatcher ≠ Thread.runSlot := by decide
      unfold step
      dsimp only
      split
      · exact h.frame (List.Subset.refl _) fun _ =>
          ⟨Desk.setThread_of_ne hne (.ready (subscriptions feeds s.syms)), le_rfl⟩
      · exact h
  | confirmTimeout =>
      unfold step
      dsimp only
      split
      · next hidle => exact h.setThread hidle _
      · exact h

theorem resends (feeds : List FeedType) : Resends feeds := by
  intro s x es hidle hx hlives hdone
  have hstart : (step feeds s .confirmTimeout).1.desk.Resent protocol .confirmWatcher
      s.desk.msgIDCounter x := by
    refine .inl ⟨hx, ?_, ?_⟩
    · rw [desk_confirmTimeout hidle]
      exact le_rfl
    · intro p hp
      rw [desk_confirmTimeout hidle, Desk.setThread_self] at hp
      cases hp
  have hstep : ∀ s' e, s'.desk.Resent protocol .confirmWatcher s.desk.msgIDCounter x →
      Lives s' e → (step feeds s' e).1.desk.Resent protocol .confirmWatcher s.desk.msgIDCounter x :=
    fun s' e h hl => resent_step h hl
  have hend := final_invariant_along hstep es hstart hlives
  exact hend.sent hdone

end MagnumOpus.Aggregator.BybitAcks
