import MagnumOpus.Lib.EventMachine
import MagnumOpus.Aggregator.Exchange

/-! # The connections of the Bybit multiplexer

`mux.go`: the symbols are cut into slots, each with a connection of its own, and every symbol of a
slot is subscribed on it, once for each feed.  A connection that drops is dialled again and all
symbols of the slot are subscribed anew; symbols whose subscription stays unconfirmed are subscribed
once more.

* **The hope.** `Planned`: every symbol belongs to one slot, its topics are subscribed there and
  nowhere else, and no connection carries more topics than the limit.
* **Why it fails.** A slot is filled with as many symbols as it may carry topics, so with two feeds
  it carries up to twice as many topics (`length_topicsOf`).
* **When it holds.** Exactly when the symbols of a full slot fit with all their feeds and every
  subscription after a reconnect is written (`planned_iff`). -/

namespace MagnumOpus.Aggregator.BybitMux

open EventMachine

/-- The kinds of feed, as the exchange interface numbers them. -/
inductive FeedType where
  | orderBook
  | trade
  | other (code : ℕ)
deriving DecidableEq

def topicPrefix : FeedType → String
  | .orderBook => "orderbook.1."
  | .trade => "publicTrade."
  | .other _ => ""

structure MuxConfig where
  syms : List String
  feeds : List FeedType
  maxTopics : ℕ

structure Slot where
  syms : List String
  /-- The topics that are subscribed on the connection. -/
  topics : List String := []
  /-- The symbols that are confirmed on the connection. -/
  confirmed : List String := []
  /-- The symbols of the requests that wait for their acknowledgement. -/
  pendingAcks : List (ℕ × String) := []

structure Mux where
  slots : List Slot
  /-- The request identifiers used so far. -/
  msgIDCounter : ℕ

inductive MuxInput where
  /-- The connection of a slot drops and is replaced; how many subscriptions are written before a
  write fails, when one does. -/
  | reconnect (slot : ℕ) (writes : Option ℕ)
  /-- The confirmation timer of a slot fires. -/
  | confirmTimeout (slot : ℕ) (writes : Option ℕ)
  | ack (slot : ℕ) (reqID : ℕ)

/-- A symbol needs a snapshot. -/
structure Signal where
  symbol : Symbol
  reason : String
deriving DecidableEq

/-! ### Slots -/

/-- The symbols of a slot. -/
def slotSyms (cfg : MuxConfig) (i : ℕ) : List String :=
  let start := i * cfg.maxTopics
  let stop := min (start + cfg.maxTopics) cfg.syms.length
  (cfg.syms.take stop).drop start

def nSlots (cfg : MuxConfig) : ℕ :=
  let n := (cfg.syms.length + cfg.maxTopics - 1) / cfg.maxTopics
  if n = 0 then 1 else n

/-! ### Subscriptions -/

/-- The feeds that have topics. -/
def topicFeeds (feeds : List FeedType) : List FeedType :=
  feeds.filter fun feed => topicPrefix feed ≠ ""

/-- The subscribe messages for some symbols, each a topic and its symbol. -/
def messages (feeds : List FeedType) (syms : List String) : List (String × String) :=
  (topicFeeds feeds).flatMap fun feed => syms.map fun sym => (topicPrefix feed ++ sym, sym)

def topicsOf (feeds : List FeedType) (syms : List String) : List String :=
  (messages feeds syms).map Prod.fst

/-- A topic that is subscribed twice counts once. -/
def addTopic (topics : List String) (topic : String) : List String :=
  if topic ∈ topics then topics else topics ++ [topic]

/-- Writes the subscribe messages until a write fails; a symbol waits for its newest request. -/
def sendMessages : List (String × String) → Option ℕ → ℕ → Slot → ℕ × Slot
  | [], _, id, s => (id, s)
  | (topic, sym) :: rest, writes, id, s =>
      let reqID := id + 1
      let others := s.pendingAcks.filter (·.2 ≠ sym)
      if writes = some 0 then
        (reqID, { s with pendingAcks := others.filter (·.1 ≠ reqID) })
      else
        sendMessages rest (writes.map (· - 1)) reqID
          { s with
            topics := addTopic s.topics topic
            pendingAcks := others ++ [(reqID, sym)] }

def sendSymbolSubscriptions (feeds : List FeedType) (syms : List String) (writes : Option ℕ)
    (id : ℕ) (s : Slot) : ℕ × Slot :=
  sendMessages (messages feeds syms) writes id s

/-- Subscribes the symbols of new slots, one slot after the other. -/
def sendSubscriptions (feeds : List FeedType) : ℕ → List Slot → ℕ × List Slot
  | id, [] => (id, [])
  | id, s :: rest =>
      let (id', s') := sendSymbolSubscriptions feeds s.syms none id s
      let (id'', rest') := sendSubscriptions feeds id' rest
      (id'', s' :: rest')

/-- Cuts the symbols into slots, dials and subscribes; there is no multiplexer when that fails, or
when the limit is zero and the number of slots cannot be computed. -/
def connect (cfg : MuxConfig) (id : ℕ) (succeeds : Bool) : Option Mux :=
  if cfg.maxTopics = 0 then none
  else if succeeds then
    let (msgIDCounter, slots) := sendSubscriptions cfg.feeds id
      ((List.range (nSlots cfg)).map fun i => { syms := slotSyms cfg i })
    some { slots, msgIDCounter }
  else none

/-- The symbols of which a request waits. -/
def unconfirmed (s : Slot) : List String :=
  s.syms.filter fun sym => s.pendingAcks.any fun p => p.2 = sym

def handleAck (s : Slot) (reqID : ℕ) : Slot :=
  match s.pendingAcks.lookup reqID with
  | none => s
  | some sym =>
      { s with
        confirmed := addTopic s.confirmed sym
        pendingAcks := s.pendingAcks.filter (·.1 ≠ reqID) }

def emitNeedsSnapshot (s : Slot) : List Signal :=
  s.confirmed.map fun raw => { symbol := normalize "bybit" raw, reason := "disconnect" }

/-- The slot with a new connection. -/
def resetAcks (s : Slot) : Slot := { syms := s.syms }

def step (cfg : MuxConfig) : Step Mux MuxInput Signal := fun m e =>
  match e with
  | .reconnect i writes =>
      match m.slots[i]? with
      | none => (m, [])
      | some s =>
          let (msgIDCounter, s') :=
            sendSymbolSubscriptions cfg.feeds s.syms writes m.msgIDCounter (resetAcks s)
          ({ slots := m.slots.set i s', msgIDCounter }, emitNeedsSnapshot s)
  | .confirmTimeout i writes =>
      match m.slots[i]? with
      | none => (m, [])
      | some s =>
          let (msgIDCounter, s') :=
            sendSymbolSubscriptions cfg.feeds (unconfirmed s) writes m.msgIDCounter s
          ({ slots := m.slots.set i s', msgIDCounter }, [])
  | .ack i reqID =>
      match m.slots[i]? with
      | none => (m, [])
      | some s => ({ m with slots := m.slots.set i (handleAck s reqID) }, [])

/-! ### What should hold -/

/-- Every symbol belongs to one slot, its topics are subscribed there and nowhere else, and no
connection carries too many. -/
structure Planned (cfg : MuxConfig) (m : Mux) : Prop where
  slot : ∀ sym ∈ cfg.syms, ∃! i : ℕ, ∃ s : Slot, m.slots[i]? = some s ∧ sym ∈ s.syms
  subscribed : ∀ s ∈ m.slots, ∀ sym ∈ s.syms, ∀ feed ∈ topicFeeds cfg.feeds,
    topicPrefix feed ++ sym ∈ s.topics
  elsewhere : ∀ s ∈ m.slots, ∀ sym ∉ s.syms, ∀ feed ∈ topicFeeds cfg.feeds,
    topicPrefix feed ++ sym ∉ s.topics
  limit : ∀ s ∈ m.slots, s.topics.length ≤ cfg.maxTopics

/-- The symbols of a full slot fit with all their feeds. -/
def Fits (cfg : MuxConfig) : Prop :=
  min cfg.syms.length cfg.maxTopics * (topicFeeds cfg.feeds).length ≤ cfg.maxTopics

instance (cfg : MuxConfig) : Decidable (Fits cfg) :=
  inferInstanceAs (Decidable (_ ≤ _))

/-- Every subscription after a reconnect is written. -/
def Resubscribed (cfg : MuxConfig) (m : Mux) : MuxInput → Prop
  | .reconnect i writes => ∀ s : Slot, m.slots[i]? = some s →
      ∀ k ∈ writes, (messages cfg.feeds s.syms).length ≤ k
  | _ => True

variable {cfg : MuxConfig} {feeds : List FeedType} {syms : List String}

/-! ### Topics -/

theorem mem_topicFeeds {feed : FeedType} :
    feed ∈ topicFeeds feeds ↔ feed ∈ feeds ∧ topicPrefix feed ≠ "" := by
  simp [topicFeeds]

/-- A topic tells its feed and its symbol. -/
theorem topic_inj {feed feed' : FeedType} {sym sym' : String} (hfeed : topicPrefix feed ≠ "")
    (hfeed' : topicPrefix feed' ≠ "")
    (h : topicPrefix feed ++ sym = topicPrefix feed' ++ sym') : feed = feed' ∧ sym = sym' := by
  have hlist := congrArg String.toList h
  rw [String.toList_append, String.toList_append] at hlist
  cases feed with
  | other code => exact absurd rfl hfeed
  | orderBook =>
      cases feed' with
      | other code => exact absurd rfl hfeed'
      | trade => exact absurd (congrArg List.head? hlist) (by simp [topicPrefix])
      | orderBook =>
          have hsym := List.append_cancel_left hlist
          exact ⟨rfl, String.toList_injective hsym⟩
  | trade =>
      cases feed' with
      | other code => exact absurd rfl hfeed'
      | orderBook => exact absurd (congrArg List.head? hlist) (by simp [topicPrefix])
      | trade =>
          have hsym := List.append_cancel_left hlist
          exact ⟨rfl, String.toList_injective hsym⟩

theorem mem_topicsOf {topic : String} :
    topic ∈ topicsOf feeds syms ↔
      ∃ feed ∈ topicFeeds feeds, ∃ sym ∈ syms, topicPrefix feed ++ sym = topic := by
  simp [topicsOf, messages]

theorem length_topicsOf :
    (topicsOf feeds syms).length = syms.length * (topicFeeds feeds).length := by
  simp [topicsOf, messages, List.length_flatMap, mul_comm]

theorem nodup_topicsOf (hfeeds : feeds.Nodup) (hsyms : syms.Nodup) :
    (topicsOf feeds syms).Nodup := by
  have hmap : topicsOf feeds syms =
      (topicFeeds feeds).flatMap fun feed => syms.map fun sym => topicPrefix feed ++ sym := by
    simp [topicsOf, messages, List.map_flatMap, Function.comp_def]
  rw [hmap, List.nodup_flatMap]
  constructor
  · intro feed hfeed
    have hprefix := (mem_topicFeeds.mp hfeed).2
    exact hsyms.map fun sym sym' h => (topic_inj hprefix hprefix h).2
  · refine (hfeeds.filter _).imp_of_mem ?_
    intro feed feed' hfeed hfeed' hne
    rw [Function.onFun, List.disjoint_left]
    intro topic htopic htopic'
    obtain ⟨sym, -, rfl⟩ := List.mem_map.mp htopic
    obtain ⟨sym', -, heq⟩ := List.mem_map.mp htopic'
    exact hne (topic_inj (mem_topicFeeds.mp hfeed).2 (mem_topicFeeds.mp hfeed').2 heq.symm).1

theorem mem_foldl_addTopic {topic : String} (l : List String) :
    ∀ topics, topic ∈ l.foldl addTopic topics ↔ topic ∈ topics ∨ topic ∈ l := by
  induction l with
  | nil => simp
  | cons t l ih =>
      intro topics
      rw [List.foldl_cons, ih, addTopic, List.mem_cons]
      split
      · next hmem =>
          constructor
          · rintro (h | h)
            · exact .inl h
            · exact .inr (.inr h)
          · rintro (h | rfl | h)
            · exact .inl h
            · exact .inl hmem
            · exact .inr h
      · rw [List.mem_append, List.mem_singleton, or_assoc]

theorem nodup_foldl_addTopic (l : List String) :
    ∀ {topics : List String}, topics.Nodup → (l.foldl addTopic topics).Nodup := by
  induction l with
  | nil => exact fun h => h
  | cons t l ih =>
      intro topics h
      refine ih ?_
      unfold addTopic
      split
      · exact h
      · next hmem =>
          rw [← List.concat_eq_append]
          exact h.concat hmem

/-! ### What is sent -/

theorem syms_sendMessages (msgs : List (String × String)) :
    ∀ writes id s, (sendMessages msgs writes id s).2.syms = s.syms := by
  induction msgs with
  | nil => exact fun _ _ _ => rfl
  | cons msg msgs ih =>
      intro writes id s
      obtain ⟨topic, sym⟩ := msg
      unfold sendMessages
      dsimp only
      split
      · rfl
      · rw [ih]

/-- The topics of the messages that are written are subscribed. -/
theorem topics_sendMessages (msgs : List (String × String)) :
    ∀ writes id s, (sendMessages msgs writes id s).2.topics =
      ((msgs.map Prod.fst).take (writes.getD msgs.length)).foldl addTopic s.topics := by
  induction msgs with
  | nil => exact fun _ _ _ => by simp [sendMessages]
  | cons msg msgs ih =>
      intro writes id s
      obtain ⟨topic, sym⟩ := msg
      unfold sendMessages
      cases writes with
      | none =>
          dsimp only
          rw [if_neg (by simp), ih]
          simp
      | some k =>
          cases k with
          | zero => simp
          | succ k =>
              dsimp only
              rw [if_neg (by simp), ih]
              simp

/-! ### Slots -/

theorem mem_slotSyms {sym : String} {i : ℕ} :
    sym ∈ slotSyms cfg i ↔ ∃ p, i * cfg.maxTopics ≤ p ∧ p < i * cfg.maxTopics + cfg.maxTopics ∧
      cfg.syms[p]? = some sym := by
  rw [slotSyms, List.mem_iff_getElem?]
  constructor
  · rintro ⟨q, hq⟩
    rw [List.getElem?_drop, List.getElem?_take] at hq
    split at hq
    · next hlt => exact ⟨_, Nat.le_add_right _ _, lt_of_lt_of_le hlt (min_le_left _ _), hq⟩
    · cases hq
  · rintro ⟨p, hle, hlt, hp⟩
    refine ⟨p - i * cfg.maxTopics, ?_⟩
    have hlen : p < cfg.syms.length := (List.getElem?_eq_some_iff.mp hp).1
    rw [List.getElem?_drop, Nat.add_sub_cancel' hle, List.getElem?_take_of_lt (lt_min hlt hlen)]
    exact hp

theorem nodup_slotSyms (h : cfg.syms.Nodup) (i : ℕ) : (slotSyms cfg i).Nodup :=
  h.sublist ((List.drop_sublist _ _).trans (List.take_sublist _ _))

theorem length_slotSyms_le (i : ℕ) :
    (slotSyms cfg i).length ≤ min cfg.syms.length cfg.maxTopics := by
  simp only [slotSyms, List.length_drop, List.length_take]
  omega

theorem length_slotSyms_zero : (slotSyms cfg 0).length = min cfg.syms.length cfg.maxTopics := by
  simp only [slotSyms, List.length_drop, List.length_take]
  omega

theorem nSlots_pos : 0 < nSlots cfg := by
  unfold nSlots
  dsimp only
  split
  · exact Nat.one_pos
  · next h => exact Nat.pos_of_ne_zero h

/-- Every symbol belongs to exactly one slot. -/
theorem existsUnique_slot (hsyms : cfg.syms.Nodup) (hpos : 0 < cfg.maxTopics) {sym : String}
    (hsym : sym ∈ cfg.syms) : ∃! i, i < nSlots cfg ∧ sym ∈ slotSyms cfg i := by
  obtain ⟨p, hp⟩ := List.mem_iff_getElem?.mp hsym
  have hlen : p < cfg.syms.length := (List.getElem?_eq_some_iff.mp hp).1
  have hdiv : p / cfg.maxTopics < (cfg.syms.length + cfg.maxTopics - 1) / cfg.maxTopics := by
    rw [← Nat.succ_le_iff, Nat.le_div_iff_mul_le hpos, Nat.succ_mul]
    have := Nat.div_mul_le_self p cfg.maxTopics
    omega
  refine ⟨p / cfg.maxTopics, ⟨?_, mem_slotSyms.mpr ⟨p, ?_, ?_, hp⟩⟩, ?_⟩
  · unfold nSlots
    dsimp only
    rw [if_neg (Nat.ne_of_gt (Nat.zero_le _ |>.trans_lt hdiv))]
    exact hdiv
  · exact Nat.div_mul_le_self _ _
  · have := Nat.lt_div_mul_add (a := p) hpos
    exact this
  · rintro i ⟨-, hi⟩
    obtain ⟨q, hle, hlt, hq⟩ := mem_slotSyms.mp hi
    have hqp : q = p := (List.getElem?_inj (List.getElem?_eq_some_iff.mp hq).1 hsyms).mp
      (hq.trans hp.symm)
    subst hqp
    symm
    rw [Nat.div_eq_iff hpos]
    omega

/-! ### The invariant -/

/-- Only topics of the slot are subscribed on its connection. -/
structure SlotInv (feeds : List FeedType) (s : Slot) : Prop where
  within : s.topics ⊆ topicsOf feeds s.syms
  nodup : s.topics.Nodup

structure Inv (cfg : MuxConfig) (m : Mux) : Prop where
  syms : m.slots.map Slot.syms = (List.range (nSlots cfg)).map (slotSyms cfg)
  slots : ∀ s ∈ m.slots, SlotInv cfg.feeds s

/-- All topics of the slot are subscribed on its connection. -/
def Subscribed (feeds : List FeedType) (s : Slot) : Prop := topicsOf feeds s.syms ⊆ s.topics

theorem messages_subset {some' : List String} (h : some' ⊆ syms) :
    (messages feeds some').map Prod.fst ⊆ topicsOf feeds syms := by
  intro topic htopic
  obtain ⟨feed, hfeed, sym, hsym, rfl⟩ := mem_topicsOf.mp htopic
  exact mem_topicsOf.mpr ⟨feed, hfeed, sym, h hsym, rfl⟩

/-- Subscribing symbols of the slot keeps to its topics, and keeps those that it had. -/
theorem SlotInv.send {s : Slot} {some' : List String} (h : SlotInv feeds s) (hsyms : some' ⊆ s.syms)
    (writes : Option ℕ) (id : ℕ) :
    SlotInv feeds (sendSymbolSubscriptions feeds some' writes id s).2 ∧
      (sendSymbolSubscriptions feeds some' writes id s).2.syms = s.syms ∧
      s.topics ⊆ (sendSymbolSubscriptions feeds some' writes id s).2.topics := by
  have hkept := syms_sendMessages (messages feeds some') writes id s
  have htopics := topics_sendMessages (messages feeds some') writes id s
  refine ⟨⟨?_, ?_⟩, hkept, ?_⟩
  · intro topic htopic
    rw [sendSymbolSubscriptions, htopics, mem_foldl_addTopic] at htopic
    rw [sendSymbolSubscriptions, hkept]
    rcases htopic with htopic | htopic
    · exact h.within htopic
    · exact messages_subset hsyms (List.mem_of_mem_take htopic)
  · rw [sendSymbolSubscriptions, htopics]
    exact nodup_foldl_addTopic _ h.nodup
  · intro topic htopic
    rw [sendSymbolSubscriptions, htopics, mem_foldl_addTopic]
    exact .inl htopic

/-- On a new connection all topics are subscribed exactly when all messages are written. -/
theorem subscribed_resend (hfeeds : feeds.Nodup) {s : Slot} (hsyms : s.syms.Nodup)
    (writes : Option ℕ) (id : ℕ) :
    Subscribed feeds (sendSymbolSubscriptions feeds s.syms writes id (resetAcks s)).2 ↔
      ∀ k ∈ writes, (messages feeds s.syms).length ≤ k := by
  have hkept := syms_sendMessages (messages feeds s.syms) writes id (resetAcks s)
  have htopics := topics_sendMessages (messages feeds s.syms) writes id (resetAcks s)
  rw [Subscribed, sendSymbolSubscriptions, hkept, htopics]
  have hmem : ∀ topic, topic ∈ ((topicsOf feeds s.syms).take
      (writes.getD (messages feeds s.syms).length)).foldl addTopic [] ↔
      topic ∈ (topicsOf feeds s.syms).take (writes.getD (messages feeds s.syms).length) := by
    intro topic
    rw [mem_foldl_addTopic]
    exact ⟨fun h => h.resolve_left List.not_mem_nil, .inr⟩
  have hlen : (topicsOf feeds s.syms).length = (messages feeds s.syms).length := List.length_map _
  constructor
  · intro hall k hk
    rw [Option.mem_def.mp hk] at hmem hall
    -- All topics are among the first `k`, so there are no more than `k`.
    have hsubset : topicsOf feeds s.syms ⊆ (topicsOf feeds s.syms).take k :=
      fun topic htopic => (hmem topic).mp (hall htopic)
    have hle := ((nodup_topicsOf hfeeds hsyms).subperm hsubset).length_le
    rw [List.length_take, hlen] at hle
    omega
  · intro hall topic htopic
    refine (hmem topic).mpr ?_
    rw [List.take_of_length_le]
    · exact htopic
    · rw [hlen]
      cases writes with
      | none => exact le_refl _
      | some k => exact hall k rfl

theorem slot_mem {m : Mux} {i : ℕ} {s : Slot} (h : m.slots[i]? = some s) : s ∈ m.slots :=
  List.mem_of_getElem? h

theorem Inv.nodup_syms {m : Mux} (h : Inv cfg m) (hsyms : cfg.syms.Nodup) {s : Slot}
    (hs : s ∈ m.slots) : s.syms.Nodup := by
  have hmem : s.syms ∈ (List.range (nSlots cfg)).map (slotSyms cfg) := by
    rw [← h.syms]
    exact List.mem_map_of_mem hs
  obtain ⟨i, -, hi⟩ := List.mem_map.mp hmem
  rw [← hi]
  exact nodup_slotSyms hsyms i

/-- A slot is replaced by one with the same symbols. -/
theorem Inv.set {m : Mux} (h : Inv cfg m) {i : ℕ} {s s' : Slot} (hs : m.slots[i]? = some s)
    (hsyms : s'.syms = s.syms) (hs' : SlotInv cfg.feeds s') (id : ℕ) :
    Inv cfg { slots := m.slots.set i s', msgIDCounter := id } where
  syms := by
    obtain ⟨hi, rfl⟩ := List.getElem?_eq_some_iff.mp hs
    rw [← h.syms, List.map_set, hsyms, ← List.map_set, List.set_getElem_self]
  slots t ht := by
    rcases List.mem_or_eq_of_mem_set ht with ht | rfl
    · exact h.slots t ht
    · exact hs'

theorem inv_subscribed_sendSubscriptions (feeds : List FeedType) (slots : List Slot) :
    ∀ id, (∀ s ∈ slots, s = resetAcks s) →
      (sendSubscriptions feeds id slots).2.map Slot.syms = slots.map Slot.syms ∧
        ∀ s ∈ (sendSubscriptions feeds id slots).2, SlotInv feeds s ∧ Subscribed feeds s := by
  induction slots with
  | nil => exact fun _ _ => ⟨rfl, fun s hs => absurd hs List.not_mem_nil⟩
  | cons s slots ih =>
      intro id hnew
      have hs := hnew s List.mem_cons_self
      obtain ⟨hsyms, hslots⟩ := ih (sendSymbolSubscriptions feeds s.syms none id s).1
        fun t ht => hnew t (List.mem_cons_of_mem s ht)
      have hfresh : SlotInv feeds s := by
        rw [hs]
        exact ⟨List.nil_subset _, List.nodup_nil⟩
      obtain ⟨hinv, hkept, -⟩ := hfresh.send (List.Subset.refl _) none id
      have hsubscribed : Subscribed feeds (sendSymbolSubscriptions feeds s.syms none id s).2 := by
        intro topic htopic
        rw [hkept] at htopic
        rw [sendSymbolSubscriptions, topics_sendMessages, mem_foldl_addTopic]
        right
        rw [Option.getD_none, List.take_of_length_le (List.length_map _).le]
        exact htopic
      constructor
      · simp only [sendSubscriptions, List.map_cons, hkept, hsyms]
      · intro t ht
        rcases List.mem_cons.mp ht with rfl | ht
        · exact ⟨hinv, hsubscribed⟩
        · exact hslots t ht

/-- A multiplexer that has connected. -/
theorem inv_connect {id : ℕ} {succeeds : Bool} {m : Mux} (h : connect cfg id succeeds = some m) :
    0 < cfg.maxTopics ∧ Inv cfg m ∧ ∀ s ∈ m.slots, Subscribed cfg.feeds s := by
  unfold connect at h
  split at h
  · cases h
  · next hpos =>
      split at h
      · cases h
        obtain ⟨hsyms, hslots⟩ := inv_subscribed_sendSubscriptions cfg.feeds
          ((List.range (nSlots cfg)).map fun i => ({ syms := slotSyms cfg i } : Slot)) id (by
            intro s hs
            obtain ⟨i, -, rfl⟩ := List.mem_map.mp hs
            rfl)
        refine ⟨Nat.pos_of_ne_zero hpos, ⟨?_, fun s hs => (hslots s hs).1⟩,
          fun s hs => (hslots s hs).2⟩
        rw [hsyms, List.map_map]
        rfl
      · cases h

theorem subset_syms_unconfirmed (s : Slot) : unconfirmed s ⊆ s.syms :=
  fun _ hsym => List.mem_of_mem_filter hsym

theorem slotInv_resetAcks (feeds : List FeedType) (s : Slot) : SlotInv feeds (resetAcks s) :=
  ⟨List.nil_subset _, List.nodup_nil⟩

theorem handleAck_slot (s : Slot) (reqID : ℕ) :
    (handleAck s reqID).syms = s.syms ∧ (handleAck s reqID).topics = s.topics := by
  unfold handleAck
  split
  · exact ⟨rfl, rfl⟩
  · exact ⟨rfl, rfl⟩

/-- What a step does: it replaces one slot by one with the same symbols, or nothing. -/
inductive Stepped (cfg : MuxConfig) (m : Mux) (e : MuxInput) (m' : Mux) : Prop
  | quiet (hsafe : Resubscribed cfg m e) (heq : m'.slots = m.slots)
  /-- The connection stays. -/
  | kept (hsafe : Resubscribed cfg m e) (i : ℕ) (s s' : Slot) (hs : m.slots[i]? = some s)
      (heq : m'.slots = m.slots.set i s') (hsyms : s'.syms = s.syms)
      (hinv : SlotInv cfg.feeds s → SlotInv cfg.feeds s') (htopics : s.topics ⊆ s'.topics)
  | replaced (i : ℕ) (writes : Option ℕ) (s s' : Slot) (he : e = .reconnect i writes)
      (hs : m.slots[i]? = some s) (heq : m'.slots = m.slots.set i s') (hsyms : s'.syms = s.syms)
      (hinv : SlotInv cfg.feeds s')
      (hsubscribed : s.syms.Nodup → cfg.feeds.Nodup →
        (Subscribed cfg.feeds s' ↔ ∀ k ∈ writes, (messages cfg.feeds s.syms).length ≤ k))

theorem stepped_step (m : Mux) (e : MuxInput) (h : ∀ s ∈ m.slots, SlotInv cfg.feeds s) :
    Stepped cfg m e (step cfg m e).1 := by
  cases e with
  | reconnect i writes =>
      cases hs : m.slots[i]? with
      | none =>
          simp only [step, hs]
          refine .quiet ?_ rfl
          intro s hs'
          rw [hs] at hs'
          cases hs'
      | some s =>
          simp only [step, hs]
          obtain ⟨hinv, hsyms, -⟩ := (slotInv_resetAcks cfg.feeds s).send
            (List.Subset.refl _) writes m.msgIDCounter
          exact .replaced i writes s _ rfl hs rfl hsyms hinv fun hnodup hfeeds =>
            subscribed_resend hfeeds hnodup writes m.msgIDCounter
  | confirmTimeout i writes =>
      cases hs : m.slots[i]? with
      | none =>
          simp only [step, hs]
          exact .quiet trivial rfl
      | some s =>
          simp only [step, hs]
          obtain ⟨hinv, hsyms, htopics⟩ := (h s (slot_mem hs)).send (subset_syms_unconfirmed s)
            writes m.msgIDCounter
          exact .kept trivial i s _ hs rfl hsyms (fun _ => hinv) htopics
  | ack i reqID =>
      cases hs : m.slots[i]? with
      | none =>
          simp only [step, hs]
          exact .quiet trivial rfl
      | some s =>
          simp only [step, hs]
          obtain ⟨hsyms, htopics⟩ := handleAck_slot s reqID
          refine .kept trivial i s _ hs rfl hsyms ?_ (by rw [htopics]; exact List.Subset.refl _)
          intro hinv
          refine ⟨?_, ?_⟩
          · rw [htopics, hsyms]
            exact hinv.within
          · rw [htopics]
            exact hinv.nodup

theorem Inv.step {m : Mux} (h : Inv cfg m) (e : MuxInput) : Inv cfg (step cfg m e).1 := by
  have hcongr : ∀ {m' : Mux} {i s'}, Inv cfg { slots := m.slots.set i s', msgIDCounter := 0 } →
      m'.slots = m.slots.set i s' → Inv cfg m' := by
    rintro ⟨slots, id⟩ i s' hinv rfl
    exact ⟨hinv.syms, hinv.slots⟩
  cases stepped_step m e h.slots with
  | quiet hsafe heq =>
      refine ⟨?_, ?_⟩
      · rw [heq]
        exact h.syms
      · rw [heq]
        exact h.slots
  | kept hsafe i s s' hs heq hsyms hinv htopics =>
      exact hcongr (h.set hs hsyms (hinv (h.slots s (slot_mem hs))) 0) heq
  | replaced i writes s s' he hs heq hsyms hinv hsubscribed =>
      exact hcongr (h.set hs hsyms hinv 0) heq

/-! ### The result -/

theorem mem_syms_slot {m : Mux} (h : Inv cfg m) {i : ℕ} {sym : String} :
    (∃ s : Slot, m.slots[i]? = some s ∧ sym ∈ s.syms) ↔ i < nSlots cfg ∧ sym ∈ slotSyms cfg i := by
  have hget : (m.slots[i]?).map Slot.syms =
      if i < nSlots cfg then some (slotSyms cfg i) else none := by
    rw [← List.getElem?_map, h.syms, List.getElem?_map]
    split
    · next hlt => rw [List.getElem?_range hlt, Option.map_some]
    · next hlt =>
        rw [List.getElem?_eq_none (by rw [List.length_range]; exact not_lt.mp hlt), Option.map_none]
  constructor
  · rintro ⟨s, hs, hsym⟩
    rw [hs, Option.map_some] at hget
    split at hget
    · next hlt =>
        rw [Option.some_inj] at hget
        exact ⟨hlt, hget ▸ hsym⟩
    · cases hget
  · rintro ⟨hlt, hsym⟩
    rw [if_pos hlt] at hget
    obtain ⟨s, hs, hsyms⟩ := Option.map_eq_some_iff.mp hget
    exact ⟨s, hs, hsyms ▸ hsym⟩

theorem length_syms_le {m : Mux} (h : Inv cfg m) {s : Slot} (hs : s ∈ m.slots) :
    s.syms.length ≤ min cfg.syms.length cfg.maxTopics := by
  have hmem : s.syms ∈ (List.range (nSlots cfg)).map (slotSyms cfg) := by
    rw [← h.syms]
    exact List.mem_map_of_mem hs
  obtain ⟨i, -, hi⟩ := List.mem_map.mp hmem
  rw [← hi]
  exact length_slotSyms_le i

/-- When full slots fit, only the subscriptions can be missing. -/
theorem planned_iff_subscribed {m : Mux} (h : Inv cfg m) (hsyms : cfg.syms.Nodup)
    (hpos : 0 < cfg.maxTopics) (hfits : Fits cfg) :
    Planned cfg m ↔ ∀ s ∈ m.slots, Subscribed cfg.feeds s := by
  constructor
  · intro hplanned s hs topic htopic
    obtain ⟨feed, hfeed, sym, hsym, rfl⟩ := mem_topicsOf.mp htopic
    exact hplanned.subscribed s hs sym hsym feed hfeed
  · intro hall
    refine ⟨?_, ?_, ?_, ?_⟩
    · intro sym hsym
      simp only [mem_syms_slot h]
      exact existsUnique_slot hsyms hpos hsym
    · intro s hs sym hsym feed hfeed
      exact hall s hs (mem_topicsOf.mpr ⟨feed, hfeed, sym, hsym, rfl⟩)
    · intro s hs sym hsym feed hfeed htopic
      obtain ⟨feed', hfeed', sym', hsym', heq⟩ := mem_topicsOf.mp ((h.slots s hs).within htopic)
      have hsame := topic_inj (mem_topicFeeds.mp hfeed').2 (mem_topicFeeds.mp hfeed).2 heq
      exact hsym (hsame.2 ▸ hsym')
    · intro s hs
      calc s.topics.length
          ≤ (topicsOf cfg.feeds s.syms).length :=
            ((h.slots s hs).nodup.subperm (h.slots s hs).within).length_le
        _ = s.syms.length * (topicFeeds cfg.feeds).length := length_topicsOf
        _ ≤ min cfg.syms.length cfg.maxTopics * (topicFeeds cfg.feeds).length :=
            Nat.mul_le_mul_right _ (length_syms_le h hs)
        _ ≤ cfg.maxTopics := hfits

/-- The first slot is full, so its topics are too many unless they fit. -/
theorem fits_of_planned {m : Mux} (h : Inv cfg m) (hsyms : cfg.syms.Nodup)
    (hfeeds : cfg.feeds.Nodup) (hplanned : Planned cfg m) : Fits cfg := by
  have hzero : (m.slots.map Slot.syms)[0]? = some (slotSyms cfg 0) := by
    rw [h.syms, List.getElem?_map, List.getElem?_range nSlots_pos, Option.map_some]
  rw [List.getElem?_map] at hzero
  obtain ⟨s, hs, hslot⟩ := Option.map_eq_some_iff.mp hzero
  have hsubscribed : topicsOf cfg.feeds s.syms ⊆ s.topics := by
    intro topic htopic
    obtain ⟨feed, hfeed, sym, hsym, rfl⟩ := mem_topicsOf.mp htopic
    exact hplanned.subscribed s (slot_mem hs) sym hsym feed hfeed
  have hnodup := nodup_topicsOf hfeeds (h.nodup_syms hsyms (slot_mem hs))
  calc min cfg.syms.length cfg.maxTopics * (topicFeeds cfg.feeds).length
      = (topicsOf cfg.feeds s.syms).length := by rw [length_topicsOf, hslot, length_slotSyms_zero]
    _ ≤ s.topics.length := (hnodup.subperm hsubscribed).length_le
    _ ≤ cfg.maxTopics := hplanned.limit s (slot_mem hs)

/-- A step keeps everything subscribed exactly when it writes all subscriptions after a reconnect.
-/
theorem subscribed_step {m : Mux} (h : Inv cfg m) (hsyms : cfg.syms.Nodup)
    (hfeeds : cfg.feeds.Nodup) (hall : ∀ s ∈ m.slots, Subscribed cfg.feeds s) (e : MuxInput) :
    (∀ s ∈ (step cfg m e).1.slots, Subscribed cfg.feeds s) ↔ Resubscribed cfg m e := by
  have hothers : ∀ i s', (∀ s ∈ m.slots.set i s', Subscribed cfg.feeds s) ↔
      i < m.slots.length → Subscribed cfg.feeds s' := by
    intro i s'
    constructor
    · exact fun hset hi => hset s' (List.mem_set hi s')
    · intro hs' t ht
      by_cases hi : i < m.slots.length
      · rcases List.mem_or_eq_of_mem_set ht with ht | rfl
        · exact hall t ht
        · exact hs' hi
      · rw [List.set_eq_of_length_le (not_lt.mp hi)] at ht
        exact hall t ht
  cases stepped_step m e h.slots with
  | quiet hsafe heq =>
      rw [heq]
      exact iff_of_true hall hsafe
  | kept hsafe i s s' hs heq hsame hinv htopics =>
      rw [heq, hothers]
      refine iff_of_true (fun _ => ?_) hsafe
      intro topic htopic
      rw [hsame] at htopic
      exact htopics (hall s (slot_mem hs) htopic)
  | replaced i writes s s' he hs heq hsame hinv hsubscribed =>
      have hlt : i < m.slots.length := (List.getElem?_eq_some_iff.mp hs).1
      rw [heq, hothers, he, hsubscribed (h.nodup_syms hsyms (slot_mem hs)) hfeeds]
      constructor
      · intro hwritten t ht
        rw [hs] at ht
        cases ht
        exact hwritten hlt
      · exact fun hwritten _ => hwritten s hs

/-- In every state of a run from a connected multiplexer the plan is kept exactly when full slots
fit with all their feeds and every subscription after a reconnect is written. -/
theorem planned_iff (cfg : MuxConfig) (hsyms : cfg.syms.Nodup) (hfeeds : cfg.feeds.Nodup)
    (id : ℕ) (succeeds : Bool) (m : Mux) (hconnect : connect cfg id succeeds = some m)
    (es : List MuxInput) :
    (∀ fs, fs <+: es → Planned cfg (final (step cfg) m fs)) ↔
      Fits cfg ∧ Along (step cfg) (Resubscribed cfg) m es := by
  obtain ⟨hpos, hinv, hall⟩ := inv_connect hconnect
  rw [forall_prefix_iff]
  by_cases hfits : Fits cfg
  · have hplanned : ∀ {m'}, Inv cfg m' → _ := fun h => planned_iff_subscribed h hsyms hpos hfits
    have hrun : Along (step cfg) (fun m e => Planned cfg (step cfg m e).1) m es ↔
        Along (step cfg) (Resubscribed cfg) m es := by
      refine along_iff_along (I := fun m => Inv cfg m ∧ ∀ s ∈ m.slots, Subscribed cfg.feeds s)
        ?_ es ⟨hinv, hall⟩
      rintro m' e ⟨hinv', hall'⟩
      have hstep := subscribed_step hinv' hsyms hfeeds hall' e
      exact ⟨(hplanned (hinv'.step e)).trans hstep, fun hok => ⟨hinv'.step e, hstep.mpr hok⟩⟩
    rw [hrun, hplanned hinv]
    exact and_congr_left fun _ => iff_of_true hall hfits
  · refine iff_of_false (fun h => hfits ?_) fun h => hfits h.1
    exact fits_of_planned hinv hsyms hfeeds h.1

/-- Two symbols with both feeds, on connections for four topics. -/
def twoSymbols : MuxConfig where
  syms := ["BTCUSDT", "ETHUSDT"]
  feeds := [.orderBook, .trade]
  maxTopics := 4

/-- The plan is kept when their connection is replaced. -/
theorem planned_twoSymbols :
    ∃ m, connect twoSymbols 0 true = some m ∧
      ∀ fs, fs <+: [.reconnect 0 none, .ack 0 5] →
        Planned twoSymbols (final (step twoSymbols) m fs) := by
  refine ⟨_, rfl, (planned_iff twoSymbols (by decide) (by decide) 0 true _ rfl _).mpr ⟨?_, ?_⟩⟩
  · decide
  · exact ⟨fun s _ k hk => (Option.not_mem_none k hk).elim, trivial, trivial⟩

/-- Ten symbols with both feeds, on a connection for ten topics. -/
def tenSymbols : MuxConfig where
  syms := ["A", "B", "C", "D", "E", "F", "G", "H", "I", "J"]
  feeds := [.orderBook, .trade]
  maxTopics := 10

/-- They are all subscribed on one connection. -/
theorem tenSymbols_twentyTopics :
    ¬ ∀ m, connect tenSymbols 0 true = some m → ∀ fs, fs <+: ([] : List MuxInput) →
      Planned tenSymbols (final (step tenSymbols) m fs) := by
  intro h
  obtain ⟨m, hm⟩ : ∃ m, connect tenSymbols 0 true = some m := ⟨_, rfl⟩
  have hfits := fits_of_planned (inv_connect hm).2.1 (by decide) (by decide)
    (h m hm [] (List.prefix_refl _))
  exact absurd hfits (by decide)

end MagnumOpus.Aggregator.BybitMux
