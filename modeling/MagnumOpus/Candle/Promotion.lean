import MagnumOpus.Candle.Shadow

/-! # The promotion of a new slot

A new slot warms up in the shadow mode while the old one is the active one (`Run`, `runShadow` in
`consumer.go`).  `Promote`, which another goroutine calls, takes the last entry of the shadow mode,
sets the cursor of the group there and clears the flag of the mode; the consumer then starts its
accumulators over, claims what is pending (`XAutoClaimPending`) and reads from the group.

* **Interleaving.** The steps of `Promote`, those of the consumer, those of the old slot and what
  becomes of the stream are separate events, in any order.  An entry is known by its position.
* **Exactly once.** `ExactlyOnce` says that the entries are handed on one by one in the order of
  the stream; `Safe`, that the group goes on exactly where the shadow mode has ended and that what
  is claimed is what comes next.
* **All runs.** `Inv` holds whether a run is safe or not (`inv_step`). -/

namespace MagnumOpus.Candle

open EventMachine ConsumerGroup

/-- Where the goroutine of the consumer is. -/
inductive Phase where
  /-- At the top of the shadow loop, or within one of its batches. -/
  | shadow
  /-- The flag of the mode has been found set; a read follows. -/
  | reading
  /-- Promoted; the pending entries from a position on are to be claimed, if there are more. -/
  | claiming (start : Option ℕ)
  | active
deriving DecidableEq

/-- The consumer has not left the shadow loop. -/
def Phase.Warming (ph : Phase) : Prop := ph = .shadow ∨ ph = .reading

instance decidableWarming (ph : Phase) : Decidable ph.Warming :=
  inferInstanceAs (Decidable (_ ∨ _))

/-- How far `Promote` has come. -/
inductive Promotion where
  | idle
  | taken (lastShadowID : String)
  | cursorSet (lastShadowID : String)
  | done
  | failed
deriving DecidableEq

inductive SlotEvent where
  | add (m : Message)
  | trim (p : ℕ)
  /-- The old slot creates the group, reads from it and acknowledges an entry. -/
  | oldStart
  | oldRead (n : ℕ)
  | oldAck (p : ℕ)
  /-- `LastShadowID`. -/
  | takeLast
  | setCursor (create setID : CallEnd)
  | clearMode
  /-- The top of the shadow loop. -/
  | check
  | xread (how : ReadEnd)
  | claim (how : CallEnd)
  /-- `ensureGroup`. -/
  | connect (create : CallEnd)
  | readGroup (how : ReadEnd)
  | barClose (calls : Calls) (nowMs : Int64)
  /-- The next entry of the batch is handled. -/
  | handle (xack : CallEnd) (calls : Calls) (nowMs : Int64)
  | stop

/-- What has happened to the book and to the accumulators. -/
inductive Act where
  | entry (p : ℕ) (m : Message)
  | promoted
  | barClose (calls : Calls) (nowMs : Int64)

/-- The position of the entry that was handed on. -/
def Act.position : Act → Option ℕ
  | .entry p _ => some p
  | _ => none

/-- The entry that was handed on. -/
def Act.message : Act → Option Message
  | .entry _ m => some m
  | _ => none

/-- What it does to a consumer. -/
def Act.apply (N : Numerics) (F : Features) (bestQuote : OrderBook → BestQuote)
    (depth : OrderBook → DepthSnapshot) (c : FullConsumer) : Act → FullConsumer
  | .entry _ m => c.handleShadowMessage N bestQuote depth m
  | .promoted => { c with aw := c.aw.reset }
  | .barClose calls nowMs => (c.handleBarClose F depth calls nowMs).1

/-- The calls for an entry with its acknowledgement. -/
def Calls.acked (calls : Calls) (xack : CallEnd) : Calls := { calls with xack := xack.succeeds }

/-- A stream as Redis keeps it: no two entries have the same id. -/
structure TickStream extends Stream Message where
  nodup : (entries.map Message.id).Nodup
  ids : ∀ m ∈ entries, m.id ≠ "0-0"
  trimmed_le : trimmed ≤ entries.length

structure Slot where
  stream : Stream Message
  c : FullConsumer
  phase : Phase := .shadow
  shadowMode : Bool := true
  promotion : Promotion := .idle
  /-- The positions that are left of the batch. -/
  batch : List ℕ := []
  /-- What had been removed from the stream when the slot started. -/
  base : ℕ
  history : List Act := []

namespace Slot

/-- The position after the entry with an id. -/
def after (stream : Stream Message) (id : String) : ℕ :=
  if id = "0-0" then 0 else (stream.entries.map Message.id).idxOf id + 1

section Steps

variable (N : Numerics) (F : Features) (bestQuote : OrderBook → BestQuote)
  (depth : OrderBook → DepthSnapshot)

/-- A slot starts in the shadow mode, with the gaps that the old slot has recorded. -/
def new (c : FullConsumer) (stream : TickStream) : Slot where
  stream := stream.toStream
  c := { c with exited := false, lastShadowID := "", xreadCursor := "0-0" }
  base := stream.trimmed

/-- Redis takes an entry with a new id only. -/
def add (s : Slot) (m : Message) : Slot :=
  if m.id ∈ s.stream.entries.map Message.id ∨ m.id = "0-0" then s
  else { s with stream := s.stream.add m }

/-- `Promote` up to where it clears the flag; nothing read means the end of the stream. -/
def setCursor (s : Slot) (lastShadowID : String) (create setID : CallEnd) : Slot :=
  let cursor :=
    if lastShadowID = "" then s.stream.entries.length else after s.stream lastShadowID
  if s.stream.group.isNone then
    { s with
      stream := if create.done then s.stream.createGroup cursor else s.stream
      promotion := if create.succeeds then .cursorSet lastShadowID else .failed }
  -- The call says that the group exists.
  else if create.succeeds = false then { s with promotion := .failed }
  else
    { s with
      stream := if setID.done then s.stream.setId cursor else s.stream
      promotion := if setID.succeeds then .cursorSet lastShadowID else .failed }

/-- The shadow loop goes on, or the consumer starts over as the active one. -/
def check (s : Slot) : Slot :=
  if s.shadowMode then { s with phase := .reading }
  else
    { s with
      c := { s.c with aw := s.c.aw.reset, seenIDs := [], tickCount := 0 }
      phase := .claiming (some 0)
      history := s.history ++ [.promoted] }

def xread (s : Slot) (how : ReadEnd) : Slot :=
  match how with
  | .ok =>
      { s with phase := .shadow, batch := s.stream.range (after s.stream s.c.xreadCursor) 100 }
  | .timeout _ => { s with phase := .shadow }
  | .error _ => { s with c := { s.c with exited := true } }

/-- The pending entries from a position on. -/
def pendingFrom (s : Slot) (start : ℕ) : List ℕ := s.stream.claimed.filter (start ≤ ·)

/-- Claims a thousand entries; an error ends the claims. -/
def claim (s : Slot) (start : ℕ) (how : CallEnd) : Slot :=
  if how.succeeds then
    { s with
      phase := .claiming ((s.pendingFrom start).drop 1000).head?
      batch := (s.pendingFrom start).take 1000 }
  else { s with phase := .claiming none }

/-- `Promote` has made sure of the group, so that this creates none. -/
def connect (s : Slot) (create : CallEnd) : Slot :=
  let stream := if create.done then s.stream.createGroup s.stream.entries.length else s.stream
  if create.succeeds then { s with stream, phase := .active }
  else { s with stream, c := { s.c with exited := true } }

def readGroup (s : Slot) (how : ReadEnd) : Slot :=
  let stream := if how.delivered then s.stream.deliver 100 else s.stream
  match how with
  | .ok => { s with stream, batch := s.stream.delivered 100 }
  | .timeout _ => { s with stream }
  | .error _ => { s with stream, c := { s.c with exited := true } }

/-- An entry in the shadow mode. -/
def handleShadow (s : Slot) (p : ℕ) (rest : List ℕ) (m : Message) : Slot :=
  { s with
    c := s.c.handleShadowMessage N bestQuote depth m
    batch := rest
    history := s.history ++ [.entry p m] }

/-- An entry after the promotion: an error ends the run, but not the claims. -/
def handleActive (s : Slot) (p : ℕ) (rest : List ℕ) (m : Message) (xack : CallEnd) (calls : Calls)
    (nowMs : Int64) : Slot :=
  let c := (s.c.handleMessage N F bestQuote depth m (calls.acked xack) nowMs).1
  { s with
    stream := if xack.done then s.stream.ack p else s.stream
    c := if s.phase = .active then c else { c with exited := false }
    batch := if s.phase = .active ∧ c.exited then [] else rest
    history := if s.c.dispatches m (calls.acked xack) then s.history ++ [.entry p m] else s.history }

def handle (s : Slot) (p : ℕ) (rest : List ℕ) (m : Message) (xack : CallEnd) (calls : Calls)
    (nowMs : Int64) : Slot :=
  if s.phase.Warming then s.handleShadow N bestQuote depth p rest m
  else s.handleActive N F bestQuote depth p rest m xack calls nowMs

def barClose (s : Slot) (calls : Calls) (nowMs : Int64) : Slot :=
  { s with
    c := (s.c.handleBarClose F depth calls nowMs).1
    history := s.history ++ [.barClose calls nowMs] }

/-- The entry that is handled next, with its position and the rest of the batch. -/
def head (s : Slot) : Option (ℕ × List ℕ × Message) :=
  match s.batch with
  | [] => none
  | p :: rest => s.stream.entries[p]?.map fun m => (p, rest, m)

/-- Where the next claim starts. -/
def claimStart (s : Slot) : Option ℕ :=
  match s.phase with
  | .claiming start => start
  | _ => none

/-- The consumer's goroutine takes a step. -/
def run (s : Slot) : SlotEvent → Slot
  | .check => if s.phase = .shadow ∧ s.batch = [] then s.check else s
  | .xread how => if s.phase = .reading then s.xread how else s
  | .claim how =>
      match s.claimStart with
      | some start => if s.batch = [] then s.claim start how else s
      | none => s
  | .connect create =>
      if s.phase = .claiming none ∧ s.batch = [] then s.connect create else s
  | .readGroup how => if s.phase = .active ∧ s.batch = [] then s.readGroup how else s
  | .barClose calls nowMs =>
      if s.phase = .active ∧ s.batch = [] then s.barClose F depth calls nowMs else s
  | .handle xack calls nowMs =>
      match s.head with
      | none => s
      | some (p, rest, m) => s.handle N F bestQuote depth p rest m xack calls nowMs
  | .stop => { s with c := { s.c with exited := true } }
  | _ => s

def step : Step Slot SlotEvent Empty := fun s e =>
  (match e with
   | .add m => s.add m
   | .trim p => { s with stream := s.stream.trim p }
   | .oldStart => { s with stream := s.stream.createGroup s.stream.entries.length }
   | .oldRead n => { s with stream := s.stream.deliver n }
   | .oldAck p => { s with stream := s.stream.ack p }
   | .takeLast =>
       if s.promotion = .idle then { s with promotion := .taken s.c.lastShadowID } else s
   | .setCursor create setID =>
       match s.promotion with
       | .taken lastShadowID => s.setCursor lastShadowID create setID
       | _ => s
   | .clearMode =>
       match s.promotion with
       | .cursorSet lastShadowID =>
           { s with
             c := { s.c with lastShadowID := lastShadowID }
             shadowMode := false
             promotion := .done }
       | _ => s
   | e => if s.c.exited then s else s.run N F bestQuote depth e, [])

end Steps

/-! ### Exactly once -/

/-- The positions that were handed on, in order. -/
def handled (s : Slot) : List ℕ := s.history.filterMap Act.position

/-- The position that comes next. -/
def upTo (s : Slot) : ℕ := s.base + s.handled.length

/-- What the history makes of the consumer that the slot has started with. -/
def replay (N : Numerics) (F : Features) (bestQuote : OrderBook → BestQuote)
    (depth : OrderBook → DepthSnapshot) (c : FullConsumer) (acts : List Act) : FullConsumer :=
  acts.foldl (fun c a => a.apply N F bestQuote depth c) c

/-- The active slot has nothing left to read. -/
structure Idle (s : Slot) : Prop where
  running : s.c.exited = false
  active : s.phase = .active
  batch : s.batch = []
  read : s.stream.entries.length ≤ s.stream.next

/-- The entries are handed on one by one in the order of the stream. -/
structure ExactlyOnce (N : Numerics) (F : Features) (bestQuote : OrderBook → BestQuote)
    (depth : OrderBook → DepthSnapshot) (c : FullConsumer) (s : Slot) : Prop where
  /-- The book is that of the entries so far, each of them applied once. -/
  book : s.c.book = ((s.stream.entries.drop s.base).take s.handled.length).foldl
    (fun ob m => (ob.applyMessage (parseMessage m.fields)).1) c.book
  inOrder : s.handled = List.range' s.base s.handled.length
  /-- All of them, when nothing is left to read. -/
  complete : s.Idle → s.handled.length = (s.stream.entries.drop s.base).length
  /-- Since the accumulators have started over they have counted the entries from there on, each
  of them once, and nothing else. -/
  counted : ∀ warmUp since, s.history = warmUp ++ .promoted :: since →
    since.filterMap Act.position = List.range' (s.base + (warmUp.filterMap Act.position).length)
      (since.filterMap Act.position).length ∧
    s.c.aw = (replay N F bestQuote depth
      { replay N F bestQuote depth c warmUp with
        aw := (replay N F bestQuote depth c warmUp).aw.reset } since).aw

/-- The position up to which the stream is no longer needed. -/
def unread (s : Slot) : ℕ := s.upTo + (s.batch.filter (s.upTo ≤ ·)).length

/-- The step keeps the entries in order. -/
def Safe (s : Slot) : SlotEvent → Prop
  | .trim p => s.c.exited = false → min p s.stream.entries.length ≤ s.unread
  -- The old slot does not take from the group what the active slot is to read.
  | .oldRead n => s.phase = .active → s.c.exited = false → (s.stream.deliver n).next ≤ s.unread
  -- When the shadow loop ends, the group does not deliver again what the loop has handled.
  | .check => s.c.exited = false → s.phase = .shadow → s.batch = [] → s.shadowMode = false →
      s.upTo ≤ s.stream.next
  -- What is claimed is what comes next.
  | .claim how => ∀ start ∈ s.claimStart, s.c.exited = false → s.batch = [] →
      how.succeeds = true → (s.pendingFrom start).take 1000 =
        List.range' s.upTo ((s.pendingFrom start).take 1000).length
  -- The group has not gone past what comes next.
  | .connect create => s.c.exited = false → s.phase = .claiming none → s.batch = [] →
      create.succeeds = true → s.stream.next ≤ s.upTo
  | .readGroup how => how = .timeout true → s.c.exited = false → s.phase = .active →
      s.batch = [] → (s.stream.deliver 100).next ≤ s.upTo
  -- What has been claimed has been delivered again, and is not forgotten before.
  | .barClose _ _ => s.c.exited = false → s.phase = .active → s.batch = [] →
      s.upTo ≤ s.stream.next
  -- What is claimed is handed on, or at least left to the group; no gap is left out.
  | .handle xack calls _ => ∀ x ∈ s.head, s.c.exited = false → ¬ s.phase.Warming →
      x.2.2.id ∈ s.c.seenIDs ∨
        if s.phase = .active then s.c.dropsGap x.2.2 (calls.acked xack) = false
        else s.c.dispatches x.2.2 (calls.acked xack) ∨ xack.succeeds = false ∧ x.2.1 = []
  | _ => True

instance decidableSafe (s : Slot) (e : SlotEvent) : Decidable (s.Safe e) := by
  unfold Safe
  cases e <;> infer_instance

/-! ### All runs -/

/-- The cursor of the group has been set. -/
def CursorIsSet (s : Slot) : Prop :=
  s.promotion = .done ∨ ∃ id, s.promotion = .cursorSet id

/-- What holds of every run. -/
structure Inv (N : Numerics) (F : Features) (bestQuote : OrderBook → BestQuote)
    (depth : OrderBook → DepthSnapshot) (c : FullConsumer) (s : Slot) : Prop where
  nodup : (s.stream.entries.map Message.id).Nodup
  ids : ∀ m ∈ s.stream.entries, m.id ≠ "0-0"
  base_le : s.base ≤ s.stream.trimmed
  warmth : FullConsumer.SameWarmth s.c (replay N F bestQuote depth c s.history)
  recorded : ∀ p m, Act.entry p m ∈ s.history → s.stream.entries[p]? = some m
  promoted : ¬ s.phase.Warming → s.shadowMode = false
  mode : s.shadowMode = false → s.promotion = .done
  grouped : s.CursorIsSet → s.stream.origin ≠ none

variable {N : Numerics} {F : Features} {bestQuote : OrderBook → BestQuote}
  {depth : OrderBook → DepthSnapshot} {c : FullConsumer} {s s' : Slot}

theorem replay_concat (acts : List Act) (a : Act) :
    replay N F bestQuote depth c (acts ++ [a]) =
      a.apply N F bestQuote depth (replay N F bestQuote depth c acts) := by
  rw [replay, List.foldl_append]
  rfl

/-- A step that leaves the stream alone, and of the promotion the mode and the state. -/
theorem Inv.kept (h : s.Inv N F bestQuote depth c) (s' : Slot)
    (hstream : s'.stream = s.stream) (hbase : s'.base = s.base)
    (hc : FullConsumer.SameWarmth s'.c (replay N F bestQuote depth c s'.history))
    (hrecorded : ∀ p m, Act.entry p m ∈ s'.history → s.stream.entries[p]? = some m)
    (hphase : ¬ s'.phase.Warming → s.shadowMode = false)
    (hmode : s'.shadowMode = s.shadowMode) (hpromotion : s'.promotion = s.promotion) :
    s'.Inv N F bestQuote depth c where
  nodup := hstream ▸ h.nodup
  ids := hstream ▸ h.ids
  base_le := hbase ▸ hstream ▸ h.base_le
  warmth := hc
  recorded := hstream ▸ hrecorded
  promoted := fun hp => hmode.trans (hphase hp)
  mode := fun hm => hpromotion.trans (h.mode (hmode.symm.trans hm))
  grouped := by
    intro hset
    rw [hstream]
    unfold CursorIsSet at hset
    rw [hpromotion] at hset
    exact h.grouped hset

/-- A step that is not in the history. -/
theorem Inv.moved (h : s.Inv N F bestQuote depth c) (s' : Slot)
    (hstream : s'.stream = s.stream) (hbase : s'.base = s.base) (hhistory : s'.history = s.history)
    (hc : FullConsumer.SameWarmth s'.c s.c)
    (hphase : ¬ s'.phase.Warming → s.shadowMode = false)
    (hmode : s'.shadowMode = s.shadowMode) (hpromotion : s'.promotion = s.promotion) :
    s'.Inv N F bestQuote depth c :=
  h.kept s' hstream hbase (hhistory ▸ hc.trans h.warmth) (hhistory ▸ h.recorded) hphase hmode
    hpromotion

/-- A step that joins the history. -/
theorem Inv.acted (h : s.Inv N F bestQuote depth c) (a : Act) (s' : Slot)
    (hstream : s'.stream = s.stream) (hbase : s'.base = s.base)
    (hhistory : s'.history = s.history ++ [a])
    (hc : FullConsumer.SameWarmth s'.c
      (a.apply N F bestQuote depth (replay N F bestQuote depth c s.history)))
    (hrecorded : ∀ p m, a = .entry p m → s.stream.entries[p]? = some m)
    (hphase : ¬ s'.phase.Warming → s.shadowMode = false)
    (hmode : s'.shadowMode = s.shadowMode) (hpromotion : s'.promotion = s.promotion) :
    s'.Inv N F bestQuote depth c := by
  refine h.kept s' hstream hbase ?_ (fun p m hmem => ?_) hphase hmode hpromotion
  · rw [hhistory, replay_concat]
    exact hc
  · rw [hhistory, List.mem_append, List.mem_singleton] at hmem
    exact hmem.elim (h.recorded p m) fun heq => hrecorded p m heq.symm

theorem Inv.stream (h : s.Inv N F bestQuote depth c) (stream : Stream Message)
    (hentries : stream.entries = s.stream.entries) (htrimmed : s.stream.trimmed ≤ stream.trimmed)
    (horigin : s.stream.origin ≠ none → stream.origin ≠ none) :
    { s with stream }.Inv N F bestQuote depth c where
  nodup := hentries ▸ h.nodup
  ids := hentries ▸ h.ids
  base_le := h.base_le.trans htrimmed
  warmth := h.warmth
  recorded := hentries ▸ h.recorded
  promoted := h.promoted
  mode := h.mode
  grouped := fun hset => horigin (h.grouped hset)

theorem Inv.add (h : s.Inv N F bestQuote depth c) (m : Message) :
    (s.add m).Inv N F bestQuote depth c := by
  unfold Slot.add
  split
  · exact h
  next hnew =>
    rw [not_or] at hnew
    refine ⟨?_, ?_, h.base_le, h.warmth, ?_, h.promoted, h.mode, h.grouped⟩
    · rw [Stream.entries_add, List.map_append, List.nodup_append]
      refine ⟨h.nodup, List.nodup_singleton _, fun id hid id' hid' heq => ?_⟩
      rw [heq, List.mem_singleton.mp hid'] at hid
      exact hnew.1 hid
    · intro m' hm'
      rcases List.mem_append.mp hm' with hold | hlast
      · exact h.ids m' hold
      · rw [List.mem_singleton.mp hlast]
        exact hnew.2
    · intro p m' hmem
      have hold := h.recorded p m' hmem
      rw [Stream.entries_add, List.getElem?_append_left (List.getElem?_eq_some_iff.mp hold).1]
      exact hold

theorem Inv.setCursor (h : s.Inv N F bestQuote depth c) {id : String}
    (htaken : s.promotion = .taken id) (create setID : CallEnd) :
    (s.setCursor id create setID).Inv N F bestQuote depth c := by
  have hshadow : s.shadowMode ≠ false := fun hm => by
    have hdone := htaken.symm.trans (h.mode hm)
    cases hdone
  have hmode : ∀ pr : Promotion, s.shadowMode = false → pr = .done := fun _ hm => absurd hm hshadow
  have hfailed : ¬ { s with promotion := .failed }.CursorIsSet := by
    rintro (hdone | ⟨_, hset⟩)
    · cases hdone
    · cases hset
  unfold Slot.setCursor
  dsimp only
  split
  next hnone =>
    cases create with
    | ok =>
        refine ⟨h.nodup, h.ids, h.base_le, h.warmth, h.recorded, h.promoted, hmode _, fun _ => ?_⟩
        rw [CallEnd.done, if_pos (by decide), Stream.origin_createGroup]
        cases s.stream.origin <;> simp
    | failed =>
        exact ⟨h.nodup, h.ids, h.base_le, h.warmth, h.recorded, h.promoted, hmode _,
          fun hset => absurd hset hfailed⟩
    | lost =>
        exact ⟨h.nodup, h.ids, h.base_le, h.warmth, h.recorded, h.promoted, hmode _,
          fun hset => absurd hset hfailed⟩
  next hsome =>
    have horigin : s.stream.origin ≠ none := by
      unfold Stream.origin
      cases hg : s.stream.group with
      | none => exact absurd (by rw [hg]; rfl) hsome
      | some g => exact Option.some_ne_none _
    have hset : (s.stream.setId (if id = "" then s.stream.entries.length
        else after s.stream id)).origin ≠ none := by
      rw [Stream.origin_setId]
      exact horigin
    split
    · exact ⟨h.nodup, h.ids, h.base_le, h.warmth, h.recorded, h.promoted, hmode _,
        fun hset => absurd hset hfailed⟩
    · cases setID with
      | ok => exact ⟨h.nodup, h.ids, h.base_le, h.warmth, h.recorded, h.promoted, hmode _,
          fun _ => hset⟩
      | failed => exact ⟨h.nodup, h.ids, h.base_le, h.warmth, h.recorded, h.promoted, hmode _,
          fun _ => horigin⟩
      | lost => exact ⟨h.nodup, h.ids, h.base_le, h.warmth, h.recorded, h.promoted, hmode _,
          fun _ => hset⟩

theorem origin_deliver_ne (stream : Stream Message) (n : ℕ) (h : stream.origin ≠ none) :
    (stream.deliver n).origin ≠ none := by
  rw [Stream.origin_deliver]
  exact h

theorem origin_ack_ne (stream : Stream Message) (p : ℕ) (h : stream.origin ≠ none) :
    (stream.ack p).origin ≠ none := by
  rw [Stream.origin_ack]
  exact h

theorem entries_acked (stream : Stream Message) (p : ℕ) (done : Bool) :
    (if done then stream.ack p else stream).entries = stream.entries := by
  cases done <;> rfl

theorem Inv.handleActive (h : s.Inv N F bestQuote depth c) {p : ℕ} {m : Message}
    (hm : s.stream.entries[p]? = some m) (rest : List ℕ) (xack : CallEnd) (calls : Calls)
    (nowMs : Int64) :
    (s.handleActive N F bestQuote depth p rest m xack calls nowMs).Inv N F bestQuote depth c := by
  have hacked : { s with
      stream := if xack.done then s.stream.ack p else s.stream }.Inv N F bestQuote depth c := by
    cases xack.done with
    | true => exact h.stream _ rfl (le_refl _) (origin_ack_ne _ _)
    | false => exact h
  have hkeeps : ∀ c' : FullConsumer, FullConsumer.SameWarmth
      (if s.phase = .active then c' else { c' with exited := false }) c' := by
    intro c'
    split <;> exact ⟨rfl, rfl⟩
  unfold Slot.handleActive
  dsimp only
  by_cases hd : s.c.dispatches m (calls.acked xack)
  · rw [if_pos hd]
    refine hacked.acted (.entry p m) _ rfl rfl rfl
      ((hkeeps _).trans (FullConsumer.dispatched_handleMessage h.warmth nowMs hd).warmth)
      (fun p' m' heq => ?_) h.promoted rfl rfl
    cases heq
    rw [entries_acked]
    exact hm
  · rw [if_neg hd]
    exact hacked.moved _ rfl rfl rfl
      ((hkeeps _).trans (FullConsumer.passed_handleMessage nowMs hd).warmth) h.promoted rfl rfl

theorem Inv.handle (h : s.Inv N F bestQuote depth c) {p : ℕ} {m : Message}
    (hm : s.stream.entries[p]? = some m) (rest : List ℕ) (xack : CallEnd) (calls : Calls)
    (nowMs : Int64) :
    (s.handle N F bestQuote depth p rest m xack calls nowMs).Inv N F bestQuote depth c := by
  unfold Slot.handle
  split
  · refine h.acted (.entry p m) _ rfl rfl rfl (h.warmth.handleShadowMessage m)
      (fun p' m' heq => ?_) h.promoted rfl rfl
    cases heq
    exact hm
  · exact h.handleActive hm rest xack calls nowMs

theorem not_warming_claiming (start : Option ℕ) : ¬ (Phase.claiming start).Warming := by
  rintro (h | h) <;> cases h

theorem not_warming_active : ¬ Phase.active.Warming := by
  rintro (h | h) <;> cases h

theorem phase_of_claimStart {start : ℕ} (h : s.claimStart = some start) :
    s.phase = .claiming (some start) := by
  unfold claimStart at h
  cases hphase : s.phase with
  | claiming start' =>
      rw [hphase] at h
      exact congrArg Phase.claiming h
  | shadow => rw [hphase] at h; cases h
  | reading => rw [hphase] at h; cases h
  | active => rw [hphase] at h; cases h

theorem head_eq_some {x : ℕ × List ℕ × Message} (h : s.head = some x) :
    s.batch = x.1 :: x.2.1 ∧ s.stream.entries[x.1]? = some x.2.2 := by
  unfold head at h
  cases hbatch : s.batch with
  | nil => rw [hbatch] at h; cases h
  | cons p rest =>
      rw [hbatch] at h
      obtain ⟨m, hm, rfl⟩ := Option.map_eq_some_iff.mp h
      exact ⟨rfl, hm⟩

theorem sameWarmth_exited (c : FullConsumer) :
    FullConsumer.SameWarmth { c with exited := true } c := ⟨rfl, rfl⟩

theorem inv_check (h : s.Inv N F bestQuote depth c) : s.check.Inv N F bestQuote depth c := by
  unfold check
  split
  · exact h.moved _ rfl rfl rfl (.refl _) (fun hp => absurd (.inr rfl) hp) rfl rfl
  next hmode =>
    exact h.acted .promoted _ rfl rfl rfl
      ⟨h.warmth.book, congrArg FullAccWriter.reset h.warmth.aw⟩
      (fun _ _ heq => by cases heq) (fun _ => Bool.eq_false_iff.mpr hmode) rfl rfl

theorem inv_xread (h : s.Inv N F bestQuote depth c) (how : ReadEnd) :
    (s.xread how).Inv N F bestQuote depth c := by
  unfold xread
  cases how with
  | ok => exact h.moved _ rfl rfl rfl (.refl _) (fun hp => absurd (.inl rfl) hp) rfl rfl
  | timeout => exact h.moved _ rfl rfl rfl (.refl _) (fun hp => absurd (.inl rfl) hp) rfl rfl
  | error => exact h.moved _ rfl rfl rfl (sameWarmth_exited _) h.promoted rfl rfl

theorem inv_claim (h : s.Inv N F bestQuote depth c) (hmode : s.shadowMode = false) (start : ℕ)
    (how : CallEnd) : (s.claim start how).Inv N F bestQuote depth c := by
  unfold claim
  split
  · exact h.moved _ rfl rfl rfl (.refl _) (fun _ => hmode) rfl rfl
  · exact h.moved _ rfl rfl rfl (.refl _) (fun _ => hmode) rfl rfl

theorem inv_connect (h : s.Inv N F bestQuote depth c) (hmode : s.shadowMode = false)
    (create : CallEnd) : (s.connect create).Inv N F bestQuote depth c := by
  have hcreated : { s with
      stream := if create.done then s.stream.createGroup s.stream.entries.length
        else s.stream }.Inv N F bestQuote depth c := by
    cases create.done with
    | true =>
        refine h.stream _ rfl (le_refl _) fun ho => ?_
        rw [Stream.createGroup_of_origin ho]
        exact ho
    | false => exact h
  unfold connect
  dsimp only
  split
  · exact hcreated.moved _ rfl rfl rfl (.refl _) (fun _ => hmode) rfl rfl
  · exact hcreated.moved _ rfl rfl rfl (sameWarmth_exited _) h.promoted rfl rfl

theorem inv_readGroup (h : s.Inv N F bestQuote depth c) (how : ReadEnd) :
    (s.readGroup how).Inv N F bestQuote depth c := by
  have hdeliver : ∀ d : Bool, { s with
      stream := if d then s.stream.deliver 100 else s.stream }.Inv N F bestQuote depth c := by
    intro d
    cases d with
    | true => exact h.stream _ rfl (le_refl _) (origin_deliver_ne _ _)
    | false => exact h
  unfold readGroup
  cases how with
  | ok => exact (hdeliver true).moved _ rfl rfl rfl (.refl _) h.promoted rfl rfl
  | timeout d => exact (hdeliver d).moved _ rfl rfl rfl (.refl _) h.promoted rfl rfl
  | error d => exact (hdeliver d).moved _ rfl rfl rfl (sameWarmth_exited _) h.promoted rfl rfl

theorem inv_barClose (h : s.Inv N F bestQuote depth c) (calls : Calls) (nowMs : Int64) :
    (s.barClose F depth calls nowMs).Inv N F bestQuote depth c :=
  h.acted (.barClose calls nowMs) _ rfl rfl rfl (h.warmth.handleBarClose calls nowMs)
    (fun _ _ heq => by cases heq) h.promoted rfl rfl

theorem inv_ite {p : Prop} [Decidable p] {a b : Slot} (ha : a.Inv N F bestQuote depth c)
    (hb : b.Inv N F bestQuote depth c) : (if p then a else b).Inv N F bestQuote depth c := by
  split
  · exact ha
  · exact hb

theorem inv_run (h : s.Inv N F bestQuote depth c) (e : SlotEvent) :
    (s.run N F bestQuote depth e).Inv N F bestQuote depth c := by
  cases e with
  | check => exact inv_ite (inv_check h) h
  | xread how => exact inv_ite (inv_xread h how) h
  | claim how =>
      unfold run
      dsimp only
      cases hstart : s.claimStart with
      | none => exact h
      | some start =>
          have hmode : s.shadowMode = false := h.promoted (by
            rw [phase_of_claimStart hstart]
            exact not_warming_claiming _)
          exact inv_ite (inv_claim h hmode start how) h
  | connect create =>
      unfold run
      dsimp only
      split
      next hphase =>
        exact inv_connect h (h.promoted (by rw [hphase.1]; exact not_warming_claiming none)) create
      · exact h
  | readGroup how => exact inv_ite (inv_readGroup h how) h
  | barClose calls nowMs => exact inv_ite (inv_barClose h calls nowMs) h
  | handle xack calls nowMs =>
      unfold run
      dsimp only
      cases hhead : s.head with
      | none => exact h
      | some x => exact h.handle (head_eq_some hhead).2 x.2.1 xack calls nowMs
  | stop => exact h.moved _ rfl rfl rfl (sameWarmth_exited _) h.promoted rfl rfl
  | add | trim | oldStart | oldRead | oldAck | takeLast | setCursor | clearMode => exact h

theorem inv_step (h : s.Inv N F bestQuote depth c) (e : SlotEvent) :
    (step N F bestQuote depth s e).1.Inv N F bestQuote depth c := by
  have hrun :
      (if s.c.exited then s else s.run N F bestQuote depth e).Inv N F bestQuote depth c := by
    split
    · exact h
    · exact inv_run h e
  unfold step
  cases e with
  | add m => exact h.add m
  | trim p => exact h.stream _ rfl (le_max_left _ _) id
  | oldStart =>
      refine h.stream _ rfl (le_refl _) fun ho => ?_
      rw [Stream.createGroup_of_origin ho]
      exact ho
  | oldRead n => exact h.stream _ rfl (le_refl _) (origin_deliver_ne _ _)
  | oldAck p => exact h.stream _ rfl (le_refl _) (origin_ack_ne _ _)
  | takeLast =>
      dsimp only
      split
      next hidle =>
        have hnot : s.shadowMode ≠ false := fun hm => by
          have hdone := hidle.symm.trans (h.mode hm)
          cases hdone
        refine ⟨h.nodup, h.ids, h.base_le, h.warmth, h.recorded, h.promoted,
          fun hm => absurd hm hnot, ?_⟩
        rintro (hdone | ⟨_, hset⟩)
        · cases hdone
        · cases hset
      · exact h
  | setCursor create setID =>
      dsimp only
      cases hpromotion : s.promotion with
      | taken id => exact h.setCursor hpromotion create setID
      | idle => exact h
      | cursorSet id => exact h
      | done => exact h
      | failed => exact h
  | clearMode =>
      dsimp only
      cases hpromotion : s.promotion with
      | cursorSet id =>
          have hset : s.stream.origin ≠ none := h.grouped (.inr ⟨id, hpromotion⟩)
          exact ⟨h.nodup, h.ids, h.base_le, ⟨h.warmth.book, h.warmth.aw⟩, h.recorded,
            fun _ => rfl, fun _ => rfl, fun _ => hset⟩
      | idle => exact h
      | taken id => exact h
      | done => exact h
      | failed => exact h
  | check => exact hrun
  | xread how => exact hrun
  | claim how => exact hrun
  | connect create => exact hrun
  | readGroup how => exact hrun
  | barClose calls nowMs => exact hrun
  | handle xack calls nowMs => exact hrun
  | stop => exact hrun

end Slot

end MagnumOpus.Candle
