import MagnumOpus.Lib.ConsumerGroup
import MagnumOpus.Candle.GapEntries
import MagnumOpus.Candle.StoredVolume

/-! # Restarts of the consumer

`Run` in `consumer.go` without a shadow mode: a start makes sure that the group exists, and then the
loop reads batches of entries that are new to the group and handles them one after another.  What
an earlier run has read and not handled is pending, and no start claims it.

* **Runs.** The process may stop at any point; an error that `handleMessage` returns ends the run,
  and with it the batch.  Entries are added at any time, and the stream may be trimmed.
* **Entries.** `keepsEntries_iff`: no entry is lost exactly as long as no run ends, and no read
  fails, with entries that the group has delivered and the run has not handled. -/

namespace MagnumOpus.Candle

open EventMachine ConsumerGroup

/-- How a read of the group ends; what it asks for may have been delivered all the same. -/
inductive ReadEnd where
  | ok
  /-- The loop goes on. -/
  | timeout (delivered : Bool)
  /-- The run ends. -/
  | error (delivered : Bool)
deriving DecidableEq

/-- The group has delivered what there was. -/
def ReadEnd.delivered : ReadEnd → Bool
  | .ok => true
  | .timeout delivered => delivered
  | .error delivered => delivered

inductive StreamEvent where
  | add (m : Message)
  | trim (p : ℕ)
  /-- A process starts with a consumer that is built anew. -/
  | start (c : Consumer) (create : CallEnd) (xlen : Bool) (nowMs : Int64)
  | barClose (calls : Calls) (nowMs : Int64)
  | partialPublish
  | read (how : ReadEnd)
  /-- The next entry of the batch is handled. -/
  | handle (xack : CallEnd) (calls : Calls) (nowMs : Int64)
  | stop

namespace Consumer

/-- The gap of a stream that is about to be trimmed. -/
def overflowGap (c : Consumer) (nowMs : Int64) : GapMarker where
  seqBefore := 0
  seqAfter := 0
  gapCause := "stream_overflow"
  gapTsMs := nowMs
  exchange := c.exchange
  symbol := c.symbol

def checkMaxLen (c : Consumer) (length : ℕ) (nowMs : Int64) : Consumer :=
  if 45000 < length then { c with book := c.book.applyGap (c.overflowGap nowMs) } else c

end Consumer

/-- The stream of a symbol, and the consumer of the process that reads it. -/
structure Service where
  stream : Stream Message := {}
  /-- It has exited when no loop runs. -/
  c : Consumer
  /-- The positions that are left of the batch. -/
  batch : List ℕ := []
  /-- The positions whose entries `handleMessage` has processed, in order. -/
  processed : List ℕ := []

namespace Service

variable (N : Numerics) (bestQuote : OrderBook → BestQuote)

def new (exchange symbol : String) (coldBufSize : ℕ) : Service where
  c := { Consumer.new exchange symbol coldBufSize with exited := true }

/-- `Run` up to its loop. -/
def start (s : Service) (c : Consumer) (create : CallEnd) (xlen : Bool) (nowMs : Int64) : Service :=
  let built := { c with seenIDs := [], exited := false, gapDedup := s.c.gapDedup }
  let stream :=
    if create.done then s.stream.createGroup s.stream.entries.length else s.stream
  if create.succeeds = false then { s with stream, c := { built with exited := true } }
  -- The group existed.
  else if s.stream.group.isSome then { s with stream, c := built }
  else if xlen = false then { s with stream, c := { built with exited := true } }
  else { s with stream, c := built.checkMaxLen (s.stream.entries.length - s.stream.trimmed) nowMs }

/-- A read of at most a hundred entries. -/
def read (s : Service) (how : ReadEnd) : Service :=
  let stream := if how.delivered then s.stream.deliver 100 else s.stream
  match how with
  | .ok => { s with stream, batch := s.stream.delivered 100 }
  | .timeout _ => { s with stream }
  | .error _ => { s with stream, c := { s.c with exited := true } }

/-- `handleMessage` on the entry at a position; an error ends the run. -/
def handle (s : Service) (p : ℕ) (rest : List ℕ) (m : Message) (xack : CallEnd) (calls : Calls)
    (nowMs : Int64) : Service × List Output :=
  let r := s.c.handleMessage N bestQuote m { calls with xack := xack.succeeds } nowMs
  ({ s with
     stream := if xack.done then s.stream.ack p else s.stream
     c := r.1
     batch := if r.1.exited then [] else rest
     processed := if m.id ∈ r.1.seenIDs then s.processed ++ [p] else s.processed }, r.2)

def step : Step Service StreamEvent Output := fun s e =>
  match e with
  | .add m => ({ s with stream := s.stream.add m }, [])
  | .trim p => ({ s with stream := s.stream.trim p }, [])
  | .start c create xlen nowMs =>
      (if s.c.exited then s.start c create xlen nowMs else s, [])
  | .barClose calls nowMs =>
      if s.c.exited = false ∧ s.batch = [] then
        ({ s with c := (s.c.handleBarClose calls nowMs).1 }, (s.c.handleBarClose calls nowMs).2)
      else (s, [])
  | .partialPublish =>
      (if s.c.exited = false ∧ s.batch = [] then { s with c := { s.c with hasNewTicks := false } }
       else s, [])
  | .read how => (if s.c.exited = false ∧ s.batch = [] then s.read how else s, [])
  | .handle xack calls nowMs =>
      match s.batch with
      | [] => (s, [])
      | p :: rest =>
          match s.stream.entries[p]? with
          | none => (s, [])
          | some m => s.handle N bestQuote p rest m xack calls nowMs
  | .stop => ({ s with c := { s.c with exited := true }, batch := [] }, [])

/-! ### Losses -/

/-- The entry has been added after the group was created. -/
def Mine (s : Service) (p : ℕ) : Prop :=
  (∃ o ∈ s.stream.origin, o ≤ p) ∧ p < s.stream.entries.length

/-- Every entry is processed, now or in some way to go on, and none after a newer one. -/
structure KeepsEntries (s : Service) : Prop where
  processed : ∀ p, s.Mine p →
    p ∈ s.processed ∨ ∃ es, p ∈ (final (step N bestQuote) s es).processed
  inOrder : ∀ p q, s.Mine p → p < q → q ∈ s.processed → p ∈ s.processed

end Service

/-- A trade without volume is discarded before it is acknowledged. -/
def Message.isZeroVolume (m : Message) : Bool :=
  match parseMessage m.fields with
  | .tick t => t.level = 0 ∧ t.size = "0"
  | _ => false

namespace Consumer

/-- The consumer leaves the entry out. -/
def Discards (c : Consumer) (m : Message) : Prop := m.id ∈ c.seenIDs ∨ m.isZeroVolume = true

/-- The calls that are made for a gap succeed. -/
def GapCallsOk (c : Consumer) (m : Message) (calls : Calls) : Prop :=
  match parseMessage m.fields with
  | .gap g => calls.zscore = true ∧
      (c.isGapDup g = true ∨ calls.zadd = true ∧ calls.zremrangebyrank = true)
  | _ => True

end Consumer

namespace Service

/-- The step leaves no entry behind: what the group has delivered stays in the batch until it is
processed. -/
def Safe (s : Service) : StreamEvent → Prop
  | .trim p => s.stream.origin ≠ none → min p s.stream.entries.length ≤ s.stream.next
  | .read how => s.c.exited = false → s.batch = [] → how.delivered = true → how ≠ .ok →
      s.stream.entries.length ≤ s.stream.next
  | .handle xack calls _ => ∀ p rest m, s.batch = p :: rest → s.stream.entries[p]? = some m →
      s.c.Discards m ∨ xack = .ok ∧ (s.c.GapCallsOk m calls ∨ rest = [])
  | .stop => s.batch = []
  | _ => True

/-! ### One message -/

variable {N : Numerics} {bestQuote : OrderBook → BestQuote} {c : Consumer} {m : Message}
  {calls : Calls} {nowMs : Int64}

/-- An entry is discarded, or else acknowledged and handed to its handler. -/
theorem handleMessage_eq (N : Numerics) (bestQuote : OrderBook → BestQuote) (c : Consumer)
    (m : Message) (calls : Calls) (nowMs : Int64) :
    c.handleMessage N bestQuote m calls nowMs =
      if m.id ∈ c.seenIDs then (c, [])
      else
        let seen := { c with seenIDs := m.id :: c.seenIDs }
        if m.isZeroVolume then (seen, [])
        else if calls.xack = false then ({ c with exited := true }, [])
        else match parseMessage m.fields with
          | .tick t => seen.handleTick N bestQuote t
          | .gap g => seen.handleGap g calls nowMs
          | .snapshot s => seen.handleSnapshot s calls nowMs
          | .unknown => (seen, []) := rfl

theorem exited_handleGap (hrun : c.exited = false) (g : GapMarker) :
    (c.handleGap g calls nowMs).1.exited = false ↔ calls.zscore = true ∧
      (c.isGapDup g = true ∨ calls.zadd = true ∧ calls.zremrangebyrank = true) := by
  unfold Consumer.handleGap
  cases calls.zscore with
  | false => simp
  | true =>
      cases c.isGapDup g with
      | true => simp [hrun]
      | false =>
          cases calls.zadd with
          | false => simp
          | true => cases hz : calls.zremrangebyrank <;> simp [Consumer.recordGapDedup, hrun]

theorem seenIDs_handleGap (g : GapMarker) :
    (c.handleGap g calls nowMs).1.seenIDs = c.seenIDs := by
  unfold Consumer.handleGap
  split
  · rfl
  · split
    · rfl
    · split
      · rfl
      · dsimp only
        split <;> rfl

theorem handleMessage_cases (N : Numerics) (bestQuote : OrderBook → BestQuote) (m : Message)
    (calls : Calls) (nowMs : Int64) (hrun : c.exited = false) :
    let c' := (c.handleMessage N bestQuote m calls nowMs).1
    (c.Discards m ∧ m.id ∈ c'.seenIDs ∧ c'.exited = false) ∨
      (¬ c.Discards m ∧ calls.xack = false ∧ m.id ∉ c'.seenIDs ∧ c'.exited = true) ∨
      (¬ c.Discards m ∧ calls.xack = true ∧ m.id ∈ c'.seenIDs ∧
        (c'.exited = false ↔ c.GapCallsOk m calls)) := by
  rw [handleMessage_eq, Consumer.Discards]
  by_cases hseen : m.id ∈ c.seenIDs
  · rw [if_pos hseen]
    exact .inl ⟨.inl hseen, hseen, hrun⟩
  rw [if_neg hseen]
  dsimp only
  cases hzero : m.isZeroVolume with
  | true => exact .inl ⟨.inr rfl, List.mem_cons_self, hrun⟩
  | false =>
      have hnot : ¬ (m.id ∈ c.seenIDs ∨ false = true) := by simp [hseen]
      rw [if_neg Bool.false_ne_true]
      cases hxack : calls.xack with
      | false => exact .inr (.inl ⟨hnot, rfl, hseen, rfl⟩)
      | true =>
          refine .inr (.inr ⟨hnot, rfl, ?_⟩)
          rw [if_neg Bool.true_eq_false.mp, Consumer.GapCallsOk]
          cases parseMessage m.fields with
          | tick t => exact ⟨List.mem_cons_self, iff_of_true hrun trivial⟩
          | snapshot sn => exact ⟨List.mem_cons_self, iff_of_true hrun trivial⟩
          | unknown => exact ⟨List.mem_cons_self, iff_of_true hrun trivial⟩
          | gap g =>
              refine ⟨?_, exited_handleGap (c := { c with seenIDs := m.id :: c.seenIDs }) hrun g⟩
              dsimp only
              rw [seenIDs_handleGap]
              exact List.mem_cons_self

/-! ### The invariant -/

/-- The positions that the group has delivered to a run that has them still, or has processed
them. -/
def held (s : Service) : List ℕ := s.processed ++ s.batch

structure Inv (s : Service) : Prop where
  bounded : s.stream.Bounded
  ordered : s.held.Pairwise (· < ·)
  below : ∀ p ∈ s.held, p < s.stream.next
  mine : ∀ o ∈ s.stream.origin, o ≤ s.stream.next ∧ ∀ p ∈ s.held, o ≤ p
  ungrouped : s.stream.origin = none → s.held = []
  stopped : s.c.exited = true → s.batch = []
  running : s.c.exited = false → s.stream.origin ≠ none

/-- The group has gone past the entry, and no run has it. -/
def Lost (s : Service) (p : ℕ) : Prop :=
  (∃ o ∈ s.stream.origin, o ≤ p) ∧ p < s.stream.next ∧ p ∉ s.held

/-- No entry is lost. -/
def NoLoss (s : Service) : Prop := ∀ p, ¬ s.Lost p

variable {s s' : Service}

theorem inv_new (exchange symbol : String) (coldBufSize : ℕ) :
    (new exchange symbol coldBufSize).Inv where
  bounded := Stream.bounded_empty
  ordered := List.Pairwise.nil
  below := fun _ h => absurd h List.not_mem_nil
  mine := fun _ h => absurd h (Option.not_mem_none _)
  ungrouped := fun _ => rfl
  stopped := fun _ => rfl
  running := fun h => absurd h (by simp [new])

theorem Inv.of_sublist (hs : s.Inv) (hbounded : s'.stream.Bounded)
    (horigin : s'.stream.origin = s.stream.origin) (hnext : s.stream.next ≤ s'.stream.next)
    (hheld : s'.held.Sublist s.held) (hstopped : s'.c.exited = true → s'.batch = [])
    (hrunning : s'.c.exited = false → s.c.exited = false) : s'.Inv where
  bounded := hbounded
  ordered := hs.ordered.sublist hheld
  below := fun p hp => (hs.below p (hheld.subset hp)).trans_le hnext
  mine := by
    intro o ho
    rw [horigin] at ho
    exact ⟨(hs.mine o ho).1.trans hnext, fun p hp => (hs.mine o ho).2 p (hheld.subset hp)⟩
  ungrouped := by
    intro hnone
    rw [horigin] at hnone
    rw [hs.ungrouped hnone] at hheld
    exact List.sublist_nil.mp hheld
  stopped := hstopped
  running := fun h => horigin ▸ hs.running (hrunning h)

/-! ### What is lost -/

/-- Only what has not been delivered yet comes to be held, and the group moves on. -/
structure Moves (s s' : Service) : Prop where
  origin : ∀ o ∈ s.stream.origin, o ∈ s'.stream.origin
  next : s.stream.next ≤ s'.stream.next
  held : ∀ p ∈ s'.held, p ∈ s.held ∨ s.stream.next ≤ p

theorem Moves.lost (h : Moves s s') {p : ℕ} (hp : s.Lost p) : s'.Lost p := by
  obtain ⟨⟨o, ho, hle⟩, hnext, hnot⟩ := hp
  refine ⟨⟨o, h.origin o ho, hle⟩, lt_of_lt_of_le hnext h.next, fun hheld => ?_⟩
  rcases h.held p hheld with hold | hnew
  · exact hnot hold
  · omega

theorem moves_of_sublist (horigin : s'.stream.origin = s.stream.origin)
    (hnext : s.stream.next ≤ s'.stream.next) (hheld : s'.held.Sublist s.held) : Moves s s' where
  origin := fun _ ho => horigin ▸ ho
  next := hnext
  held := fun _ hp => .inl (hheld.subset hp)

/-- When the group stays where it is, what was held must be held. -/
theorem noLoss_iff_of_held (hs : s.Inv) (hno : s.NoLoss) (s' : Service)
    (horigin : s'.stream.origin = s.stream.origin) (hnext : s'.stream.next = s.stream.next) :
    s'.NoLoss ↔ ∀ p ∈ s.held, p ∈ s'.held := by
  constructor
  · intro h p hp
    by_contra hnot
    cases ho : s.stream.origin with
    | none =>
        rw [hs.ungrouped ho] at hp
        exact List.not_mem_nil hp
    | some o =>
        have hmine := (hs.mine o ho).2 p hp
        exact h p ⟨⟨o, horigin.trans ho, hmine⟩, hnext ▸ hs.below p hp, hnot⟩
  · rintro h p ⟨hmine, hlt, hnot⟩
    rw [horigin] at hmine
    exact hno p ⟨hmine, hnext ▸ hlt, fun hp => hnot (h p hp)⟩

/-- When no more is held, the group must stay where it is. -/
theorem noLoss_iff_of_next (hs : s.Inv) (hno : s.NoLoss) (s' : Service)
    (horigin : s'.stream.origin = s.stream.origin) (hheld : s'.held = s.held) :
    s'.NoLoss ↔ (s.stream.origin ≠ none → s'.stream.next ≤ s.stream.next) := by
  constructor
  · intro h hsome
    obtain ⟨o, ho⟩ := Option.ne_none_iff_exists'.mp hsome
    by_contra hlt
    refine h s.stream.next ⟨⟨o, horigin.trans ho, (hs.mine o ho).1⟩, not_le.mp hlt, fun hp => ?_⟩
    rw [hheld] at hp
    exact lt_irrefl _ (hs.below _ hp)
  · rintro h p ⟨⟨o, ho, hle⟩, hlt, hnot⟩
    rw [horigin] at ho
    rw [hheld] at hnot
    have hsome : s.stream.origin ≠ none := by
      rw [Option.mem_def.mp ho]
      exact Option.some_ne_none o
    exact hno p ⟨⟨o, ho, hle⟩, lt_of_lt_of_le hlt (h hsome), hnot⟩

/-! ### A start -/

/-- A start creates the group where the stream ends, when there is none, and reads nothing. -/
structure Started (s s' : Service) : Prop where
  stream : s'.stream = s.stream ∨ s'.stream = s.stream.createGroup s.stream.entries.length
  processed : s'.processed = s.processed
  batch : s'.batch = s.batch
  running : s'.c.exited = false → s'.stream.origin ≠ none

theorem started_start (c : Consumer) (create : CallEnd) (xlen : Bool) (nowMs : Int64) :
    Started s (s.start c create xlen nowMs) := by
  have horigin : (s.stream.createGroup s.stream.entries.length).origin ≠ none := by
    rw [Stream.origin_createGroup]
    cases s.stream.origin <;> simp
  have hstream : ∀ done : Bool, (if done then s.stream.createGroup s.stream.entries.length
      else s.stream) = s.stream ∨ (if done then s.stream.createGroup s.stream.entries.length
      else s.stream) = s.stream.createGroup s.stream.entries.length := by
    intro done
    cases done
    · exact .inl rfl
    · exact .inr rfl
  unfold start
  dsimp only
  split
  · exact ⟨hstream _, rfl, rfl, fun h => absurd h (by simp)⟩
  next hok =>
    have hdone : create.done = true := by
      cases create <;> simp [CallEnd.succeeds, CallEnd.done] at hok ⊢
    rw [hdone]
    split
    · exact ⟨.inr rfl, rfl, rfl, fun _ => horigin⟩
    · split
      · exact ⟨.inr rfl, rfl, rfl, fun _ => horigin⟩
      · exact ⟨.inr rfl, rfl, rfl, fun _ => horigin⟩

theorem Started.held (h : Started s s') : s'.held = s.held := by
  rw [Service.held, Service.held, h.processed, h.batch]

/-- Where the group is after a start. -/
theorem Started.origin (h : Started s s') (hs : s.Inv) :
    (s'.stream.origin = s.stream.origin ∧ s'.stream.next = s.stream.next) ∨
      (s.stream.origin = none ∧ s'.stream.origin = some s'.stream.next ∧
        s.stream.next ≤ s'.stream.next) := by
  rcases h.stream with hstream | hstream
  · exact .inl ⟨by rw [hstream], by rw [hstream]⟩
  · have hnext := Stream.next_createGroup hs.bounded.trimmed
    have hle := hs.bounded.next_le
    rw [hstream, Stream.origin_createGroup, hnext]
    cases ho : s.stream.origin with
    | none => exact .inr ⟨rfl, by simp, by simpa using hle⟩
    | some o => exact .inl ⟨rfl, by simp⟩

theorem Started.moves (h : Started s s') (hs : s.Inv) : Moves s s' := by
  have hheld : ∀ p ∈ s'.held, p ∈ s.held ∨ s.stream.next ≤ p := fun p hp => .inl (h.held ▸ hp)
  rcases h.origin hs with ⟨horigin, hnext⟩ | ⟨hnone, -, hnext⟩
  · exact ⟨fun o ho => horigin ▸ ho, hnext.ge, hheld⟩
  · refine ⟨fun o ho => ?_, hnext, hheld⟩
    rw [hnone] at ho
    exact absurd ho (Option.not_mem_none o)

theorem Started.inv (h : Started s s') (hs : s.Inv) (hbatch : s.batch = []) : s'.Inv := by
  have hbounded : s'.stream.Bounded := by
    rcases h.stream with hstream | hstream
    · exact hstream ▸ hs.bounded
    · exact hstream ▸ hs.bounded.createGroup (le_refl _)
  have hbelow : ∀ p ∈ s'.held, p < s'.stream.next := fun p hp =>
    (hs.below p (h.held ▸ hp)).trans_le (h.moves hs).next
  have hstopped : s'.c.exited = true → s'.batch = [] := fun _ => h.batch.trans hbatch
  rcases h.origin hs with ⟨horigin, hnext⟩ | ⟨hnone, horigin, -⟩
  · refine ⟨hbounded, h.held ▸ hs.ordered, hbelow, ?_, ?_, hstopped, h.running⟩
    · rw [horigin, hnext, h.held]
      exact hs.mine
    · rw [horigin, h.held]
      exact hs.ungrouped
  · have hempty : s'.held = [] := h.held.trans (hs.ungrouped hnone)
    refine ⟨hbounded, h.held ▸ hs.ordered, hbelow, ?_, fun _ => hempty, hstopped, h.running⟩
    intro o ho
    rw [horigin] at ho
    rw [hempty]
    exact ⟨(Option.some.inj ho).ge, fun _ hp => absurd hp List.not_mem_nil⟩

theorem Started.noLoss (h : Started s s') (hs : s.Inv) (hno : s.NoLoss) : s'.NoLoss := by
  rcases h.origin hs with ⟨horigin, hnext⟩ | ⟨-, horigin, -⟩
  · exact (noLoss_iff_of_held hs hno s' horigin hnext).mpr fun p hp => h.held ▸ hp
  · rintro p ⟨⟨o, ho, hle⟩, hlt, -⟩
    rw [horigin] at ho
    have heq := Option.some.inj ho
    omega

/-! ### A read -/

theorem noLoss_deliver_iff (hs : s.Inv) (hno : s.NoLoss) (hrun : s.c.exited = false)
    (s' : Service) (hstream : s'.stream = s.stream.deliver 100) (hheld : s'.held = s.held) :
    s'.NoLoss ↔ s.stream.entries.length ≤ s.stream.next := by
  have horigin := hs.running hrun
  rw [noLoss_iff_of_next hs hno s' (by rw [hstream, Stream.origin_deliver]) hheld, hstream,
    Stream.next_deliver horigin, Stream.length_delivered]
  constructor
  · intro h
    have hle := h horigin
    omega
  · intro h _
    omega

theorem inv_deliver (hs : s.Inv) (hrun : s.c.exited = false) (hbatch : s.batch = [])
    (hstream : s'.stream = s.stream.deliver 100) (hprocessed : s'.processed = s.processed)
    (hbatch' : s'.batch = [] ∨ s'.c.exited = false ∧ s'.batch = s.stream.delivered 100) :
    s'.Inv := by
  have horigin := hs.running hrun
  have hnext := Stream.next_deliver (n := 100) horigin
  have hbounded : s'.stream.Bounded := hstream ▸ hs.bounded.deliver 100
  have hheld : s.held = s.processed := by rw [held, hbatch, List.append_nil]
  rcases hbatch' with hnone | ⟨hgoes, hsome⟩
  · have hheld' : s'.held = s.held := by rw [hheld, held, hprocessed, hnone, List.append_nil]
    exact hs.of_sublist hbounded (by rw [hstream, Stream.origin_deliver])
      (by rw [hstream]; omega) (by rw [hheld']) (fun _ => hnone) fun _ => hrun
  · have hheld' : s'.held = s.held ++ s.stream.delivered 100 := by
      rw [hheld, held, hprocessed, hsome]
    have hnew : ∀ p ∈ s.stream.delivered 100, s.stream.next ≤ p ∧ p < s'.stream.next := by
      intro p hp
      have hmem := Stream.mem_delivered.mp hp
      rw [hstream, hnext, Stream.length_delivered]
      omega
    refine ⟨hbounded, ?_, ?_, ?_, ?_, fun h => ?_, fun _ => ?_⟩
    · rw [hheld']
      refine List.pairwise_append.mpr ⟨hs.ordered, Stream.pairwise_delivered _ _, ?_⟩
      intro p hp q hq
      exact (hs.below p hp).trans_le (hnew q hq).1
    · intro p hp
      rw [hheld', List.mem_append] at hp
      rcases hp with hold | hp
      · have hlt := hs.below p hold
        rw [hstream]
        omega
      · exact (hnew p hp).2
    · intro o ho
      rw [hstream, Stream.origin_deliver] at ho
      obtain ⟨hle, hmine⟩ := hs.mine o ho
      refine ⟨by rw [hstream]; omega, fun p hp => ?_⟩
      rw [hheld', List.mem_append] at hp
      exact hp.elim (hmine p) fun hp => hle.trans (hnew p hp).1
    · intro hnone
      rw [hstream, Stream.origin_deliver] at hnone
      exact absurd hnone horigin
    · rw [hgoes] at h
      cases h
    · rw [hstream, Stream.origin_deliver]
      exact horigin

theorem inv_read (hs : s.Inv) (hrun : s.c.exited = false) (hbatch : s.batch = [])
    (how : ReadEnd) : (s.read how).Inv := by
  have hkeep : ∀ b, (({ s with c := { s.c with exited := b } } : Service)).Inv := fun b =>
    hs.of_sublist hs.bounded rfl (le_refl _) (List.Sublist.refl _) (fun _ => hbatch) fun _ => hrun
  cases how with
  | ok => exact inv_deliver hs hrun hbatch rfl rfl (.inr ⟨hrun, rfl⟩)
  | timeout delivered =>
      cases delivered with
      | true => exact inv_deliver hs hrun hbatch rfl rfl (.inl hbatch)
      | false => exact hs
  | error delivered =>
      cases delivered with
      | true => exact inv_deliver hs hrun hbatch rfl rfl (.inl hbatch)
      | false => exact hkeep true

theorem noLoss_read_iff (hs : s.Inv) (hno : s.NoLoss) (hrun : s.c.exited = false)
    (hbatch : s.batch = []) (how : ReadEnd) :
    (s.read how).NoLoss ↔ (how.delivered = true → how ≠ .ok →
      s.stream.entries.length ≤ s.stream.next) := by
  cases how with
  | ok =>
      refine iff_of_true ?_ fun _ h => absurd rfl h
      rintro p ⟨⟨o, ho, hle⟩, hlt, hnot⟩
      simp only [read, ReadEnd.delivered, if_true, held, List.mem_append, not_or] at ho hlt hnot
      rw [Stream.origin_deliver] at ho
      rw [Stream.next_deliver (hs.running hrun), Stream.length_delivered] at hlt
      rw [Stream.mem_delivered] at hnot
      refine hno p ⟨⟨o, ho, hle⟩, by omega, ?_⟩
      rw [held, hbatch, List.append_nil]
      exact hnot.1
  | timeout delivered =>
      cases delivered with
      | true =>
          refine (noLoss_deliver_iff hs hno hrun (s.read _) rfl rfl).trans ?_
          simp [ReadEnd.delivered]
      | false => exact iff_of_true hno fun h => Bool.noConfusion h
  | error delivered =>
      cases delivered with
      | true =>
          refine (noLoss_deliver_iff hs hno hrun (s.read _) rfl rfl).trans ?_
          simp [ReadEnd.delivered]
      | false => exact iff_of_true hno fun h => Bool.noConfusion h

theorem moves_deliver (hs : s.Inv) (hrun : s.c.exited = false)
    (hstream : s'.stream = s.stream.deliver 100)
    (hheld : ∀ q ∈ s'.held, q ∈ s.held ∨ q ∈ s.stream.delivered 100) : Moves s s' := by
  have hnext := Stream.next_deliver (n := 100) (hs.running hrun)
  refine ⟨fun o ho => ?_, ?_, fun q hq => (hheld q hq).imp_right fun h =>
    (Stream.mem_delivered.mp h).1⟩
  · rwa [hstream, Stream.origin_deliver]
  · rw [hstream]
    omega

theorem moves_read (hs : s.Inv) (hrun : s.c.exited = false) (hbatch : s.batch = [])
    (how : ReadEnd) : Moves s (s.read how) := by
  cases how with
  | ok =>
      refine moves_deliver hs hrun rfl fun q hq => ?_
      simp only [read, held, hbatch, List.append_nil, List.mem_append] at hq ⊢
      exact hq
  | timeout delivered =>
      cases delivered with
      | true => exact moves_deliver hs hrun rfl fun q hq => .inl hq
      | false => exact moves_of_sublist rfl (le_refl _) (List.Sublist.refl _)
  | error delivered =>
      cases delivered with
      | true => exact moves_deliver hs hrun rfl fun q hq => .inl hq
      | false => exact moves_of_sublist rfl (le_refl _) (List.Sublist.refl _)

/-! ### An entry -/

theorem gapCallsOk_xack (b : Bool) :
    c.GapCallsOk m { calls with xack := b } ↔ c.GapCallsOk m calls := by
  unfold Consumer.GapCallsOk
  cases parseMessage m.fields <;> exact Iff.rfl

variable {p : ℕ} {rest : List ℕ} {xack : CallEnd}

/-- What handling an entry leaves of the group and of what is held. -/
structure Handled (s s' : Service) : Prop where
  bounded : s.stream.Bounded → s'.stream.Bounded
  entries : s'.stream.entries = s.stream.entries
  origin : s'.stream.origin = s.stream.origin
  next : s'.stream.next = s.stream.next
  held : s'.held.Sublist s.held
  stopped : s'.c.exited = true → s'.batch = []

theorem handled_handle (N : Numerics) (bestQuote : OrderBook → BestQuote) (m : Message)
    (xack : CallEnd) (calls : Calls) (nowMs : Int64) (hbatch : s.batch = p :: rest) :
    Handled s (s.handle N bestQuote p rest m xack calls nowMs).1 := by
  have hall : s.held = s.processed ++ [p] ++ rest := by simp [held, hbatch]
  refine ⟨fun hbounded => ?_, ?_, ?_, ?_, ?_, fun h => if_pos h⟩
  · simp only [handle]
    split
    · exact hbounded.ack p
    · exact hbounded
  · simp only [handle]
    split <;> simp
  · simp only [handle]
    split <;> simp
  · simp only [handle]
    split <;> simp
  · rw [hall]
    simp only [held, handle]
    refine List.Sublist.append ?_ ?_
    · split
      · exact List.Sublist.refl _
      · exact List.sublist_append_left _ _
    · split
      · exact List.nil_sublist _
      · exact List.Sublist.refl _

theorem noLoss_handle_iff (hs : s.Inv) (hno : s.NoLoss) (hrun : s.c.exited = false)
    (hbatch : s.batch = p :: rest) :
    (s.handle N bestQuote p rest m xack calls nowMs).1.NoLoss ↔
      s.c.Discards m ∨ xack = .ok ∧ (s.c.GapCallsOk m calls ∨ rest = []) := by
  have hall : s.held = s.processed ++ p :: rest := by rw [held, hbatch]
  have hordered := hs.ordered
  rw [hall] at hordered
  obtain ⟨-, hrest, hbefore⟩ := List.pairwise_append.mp hordered
  have hp : p ∉ s.processed := fun h => lt_irrefl p (hbefore p h p List.mem_cons_self)
  have hhandled := handled_handle N bestQuote m xack calls nowMs hbatch
  rw [noLoss_iff_of_held hs hno _ hhandled.origin hhandled.next, hall]
  simp only [held, handle]
  have hcases := handleMessage_cases N bestQuote m { calls with xack := xack.succeeds } nowMs hrun
  rw [gapCallsOk_xack] at hcases
  rcases hcases with ⟨hdiscards, hseen, hgoes⟩ | ⟨hkept, hxack, hunseen, hexited⟩ |
    ⟨hkept, hxack, hseen, hgap⟩
  · rw [if_pos hseen, hgoes]
    refine iff_of_true (fun q hq => ?_) (.inl hdiscards)
    simpa [List.append_assoc] using hq
  · rw [if_neg hunseen, hexited]
    refine iff_of_false (fun h => ?_) ?_
    · have hmem := h p (List.mem_append_right _ List.mem_cons_self)
      simp only [if_true, List.append_nil] at hmem
      exact hp hmem
    · rintro (h | ⟨rfl, -⟩)
      · exact hkept h
      · cases hxack
  · have hok : xack = .ok := (CallEnd.succeeds_iff xack).mp hxack
    rw [if_pos hseen]
    cases hends : (s.c.handleMessage N bestQuote m { calls with xack := xack.succeeds }
        nowMs).1.exited with
    | false =>
        refine iff_of_true (fun q hq => ?_) (.inr ⟨hok, .inl (hgap.mp hends)⟩)
        simpa [List.append_assoc] using hq
    | true =>
        have hfails : ¬ s.c.GapCallsOk m calls := by
          rw [← hgap, hends]
          exact Bool.true_eq_false.mp
        simp only [if_true, List.append_nil]
        constructor
        · intro h
          refine .inr ⟨hok, .inr (List.eq_nil_iff_forall_not_mem.mpr fun q hq => ?_)⟩
          have hlt := (List.pairwise_cons.mp hrest).1 q hq
          have hmem := h q (List.mem_append_right _ (List.mem_cons_of_mem _ hq))
          rcases List.mem_append.mp hmem with hold | hhead
          · exact lt_irrefl q (hbefore q hold q (List.mem_cons_of_mem _ hq))
          · rw [List.mem_singleton.mp hhead] at hlt
            exact lt_irrefl p hlt
        · rintro (h | ⟨-, h | rfl⟩) q hq
          · exact absurd h hkept
          · exact absurd h hfails
          · exact hq

/-! ### Any step -/

theorem running_of_batch (hs : s.Inv) (hbatch : s.batch = p :: rest) : s.c.exited = false := by
  cases hexited : s.c.exited with
  | false => rfl
  | true =>
      rw [hs.stopped hexited] at hbatch
      cases hbatch

theorem entry_of_batch (hs : s.Inv) (hbatch : s.batch = p :: rest) :
    ∃ m, s.stream.entries[p]? = some m := by
  have hmem : p ∈ s.held := by simp [held, hbatch]
  have hlt : p < s.stream.entries.length := (hs.below p hmem).trans_le hs.bounded.next_le
  exact ⟨_, List.getElem?_eq_getElem hlt⟩

theorem inv_step (hs : s.Inv) (e : StreamEvent) : (step N bestQuote s e).1.Inv := by
  cases e with
  | add m =>
      exact hs.of_sublist (hs.bounded.add m) rfl (le_refl _) (List.Sublist.refl _) hs.stopped id
  | trim p =>
      refine hs.of_sublist (hs.bounded.trim p) rfl ?_ (List.Sublist.refl _) hs.stopped id
      simp only [step, Stream.next_trim]
      exact le_max_left _ _
  | start c create xlen nowMs =>
      simp only [step]
      split
      next hexited => exact (started_start c create xlen nowMs).inv hs (hs.stopped hexited)
      next => exact hs
  | barClose calls nowMs =>
      simp only [step]
      split
      next hidle =>
        exact hs.of_sublist hs.bounded rfl (le_refl _) (List.Sublist.refl _) (fun _ => hidle.2) id
      next => exact hs
  | partialPublish =>
      simp only [step]
      split
      next hidle =>
        exact hs.of_sublist hs.bounded rfl (le_refl _) (List.Sublist.refl _) (fun _ => hidle.2) id
      next => exact hs
  | read how =>
      simp only [step]
      split
      next hidle => exact inv_read hs hidle.1 hidle.2 how
      next => exact hs
  | handle xack calls nowMs =>
      cases hbatch : s.batch with
      | nil =>
          simp only [step, hbatch]
          exact hs
      | cons p rest =>
          obtain ⟨m, hm⟩ := entry_of_batch hs hbatch
          simp only [step, hbatch, hm]
          have h := handled_handle N bestQuote m xack calls nowMs hbatch
          exact hs.of_sublist (h.bounded hs.bounded) h.origin h.next.ge h.held h.stopped fun _ =>
            running_of_batch hs hbatch
  | stop =>
      refine hs.of_sublist hs.bounded rfl (le_refl _) ?_ (fun _ => rfl) fun h => Bool.noConfusion h
      simp [step, held]

theorem lost_step (hs : s.Inv) (e : StreamEvent) (hp : s.Lost p) :
    (step N bestQuote s e).1.Lost p := by
  have hself : Moves s s := moves_of_sublist rfl (le_refl _) (List.Sublist.refl _)
  refine Moves.lost ?_ hp
  cases e with
  | add m => exact moves_of_sublist rfl (le_refl _) (List.Sublist.refl _)
  | trim p =>
      refine moves_of_sublist rfl ?_ (List.Sublist.refl _)
      simp only [step, Stream.next_trim]
      exact le_max_left _ _
  | start c create xlen nowMs =>
      simp only [step]
      split
      · exact (started_start c create xlen nowMs).moves hs
      · exact hself
  | barClose calls nowMs =>
      simp only [step]
      split
      · exact moves_of_sublist rfl (le_refl _) (List.Sublist.refl _)
      · exact hself
  | partialPublish =>
      simp only [step]
      split
      · exact moves_of_sublist rfl (le_refl _) (List.Sublist.refl _)
      · exact hself
  | read how =>
      simp only [step]
      split
      next hidle => exact moves_read hs hidle.1 hidle.2 how
      next => exact hself
  | handle xack calls nowMs =>
      cases hbatch : s.batch with
      | nil =>
          simp only [step, hbatch]
          exact hself
      | cons p rest =>
          obtain ⟨m, hm⟩ := entry_of_batch hs hbatch
          simp only [step, hbatch, hm]
          have h := handled_handle N bestQuote m xack calls nowMs hbatch
          exact moves_of_sublist h.origin h.next.ge h.held
  | stop =>
      refine moves_of_sublist rfl (le_refl _) ?_
      simp [step, held]

theorem safe_handle_iff (hbatch : s.batch = p :: rest) (hm : s.stream.entries[p]? = some m) :
    s.Safe (.handle xack calls nowMs) ↔
      s.c.Discards m ∨ xack = .ok ∧ (s.c.GapCallsOk m calls ∨ rest = []) := by
  constructor
  · exact fun h => h p rest m hbatch hm
  · intro h p' rest' m' hcons hm'
    rw [hbatch] at hcons
    obtain ⟨rfl, rfl⟩ := List.cons.inj hcons
    rw [hm] at hm'
    cases hm'
    exact h

theorem noLoss_stop_iff (hs : s.Inv) (hno : s.NoLoss) :
    (step N bestQuote s .stop).1.NoLoss ↔ s.Safe .stop := by
  refine (noLoss_iff_of_held hs hno (step N bestQuote s _).1 rfl rfl).trans ⟨?_, ?_⟩
  · intro h
    refine List.eq_nil_iff_forall_not_mem.mpr fun p hp => ?_
    have hkept := h p (List.mem_append_right _ hp)
    simp only [step, held, List.append_nil] at hkept
    have hdistinct := (List.pairwise_append.mp hs.ordered).2.2 p hkept p hp
    exact lt_irrefl p hdistinct
  · intro hbatch p hp
    simp only [Safe] at hbatch
    simpa [step, held, hbatch] using hp

/-- **A step loses no entry exactly when it is safe.** -/
theorem noLoss_step_iff (hs : s.Inv) (hno : s.NoLoss) (e : StreamEvent) :
    (step N bestQuote s e).1.NoLoss ↔ s.Safe e := by
  have hsame : ∀ s' : Service, s'.stream.origin = s.stream.origin →
      s'.stream.next = s.stream.next → s'.held = s.held → s'.NoLoss :=
    fun s' horigin hnext hheld =>
      (noLoss_iff_of_held hs hno s' horigin hnext).mpr fun p hp => hheld ▸ hp
  cases e with
  | add m => exact iff_of_true (hsame _ rfl rfl rfl) trivial
  | trim p =>
      have hnext : (step N bestQuote s (.trim p)).1.stream.next =
          max s.stream.next (min p s.stream.entries.length) := Stream.next_trim
      refine (noLoss_iff_of_next hs hno (step N bestQuote s _).1 rfl rfl).trans ?_
      rw [hnext, max_le_iff]
      simp [Safe]
  | start c create xlen nowMs =>
      simp only [step]
      split
      · exact iff_of_true ((started_start c create xlen nowMs).noLoss hs hno) trivial
      · exact iff_of_true hno trivial
  | barClose calls nowMs =>
      simp only [step]
      split
      · exact iff_of_true (hsame _ rfl rfl rfl) trivial
      · exact iff_of_true hno trivial
  | partialPublish =>
      simp only [step]
      split
      · exact iff_of_true (hsame _ rfl rfl rfl) trivial
      · exact iff_of_true hno trivial
  | read how =>
      simp only [step]
      split
      next hidle =>
        rw [noLoss_read_iff hs hno hidle.1 hidle.2]
        exact ⟨fun h _ _ => h, fun h => h hidle.1 hidle.2⟩
      next hbusy => exact iff_of_true hno fun hrun hbatch => absurd ⟨hrun, hbatch⟩ hbusy
  | handle xack calls nowMs =>
      cases hbatch : s.batch with
      | nil =>
          simp only [step, hbatch]
          refine iff_of_true hno fun p rest m hcons => ?_
          rw [hbatch] at hcons
          cases hcons
      | cons p rest =>
          obtain ⟨m, hm⟩ := entry_of_batch hs hbatch
          simp only [step, hbatch, hm]
          rw [noLoss_handle_iff hs hno (running_of_batch hs hbatch) hbatch,
            safe_handle_iff hbatch hm]
  | stop => exact noLoss_stop_iff hs hno

/-! ### Going on -/

/-- A state that the run can come to without a loss, with the same entries. -/
structure Reaches (N : Numerics) (bestQuote : OrderBook → BestQuote) (s s' : Service) : Prop where
  run : ∃ es, s' = final (step N bestQuote) s es
  inv : s'.Inv
  noLoss : s'.NoLoss
  running : s'.c.exited = false
  entries : s'.stream.entries = s.stream.entries
  origin : s'.stream.origin = s.stream.origin

theorem reaches_step (N : Numerics) (bestQuote : OrderBook → BestQuote) (hs : s.Inv)
    (hno : s.NoLoss) {e : StreamEvent} (hsafe : s.Safe e)
    (hrun : (step N bestQuote s e).1.c.exited = false)
    (hentries : (step N bestQuote s e).1.stream.entries = s.stream.entries)
    (horigin : (step N bestQuote s e).1.stream.origin = s.stream.origin) :
    Reaches N bestQuote s (step N bestQuote s e).1 :=
  ⟨⟨[e], rfl⟩, inv_step hs e, (noLoss_step_iff hs hno e).mpr hsafe, hrun, hentries, horigin⟩

theorem Reaches.trans {s'' : Service} (h : Reaches N bestQuote s s')
    (h' : Reaches N bestQuote s' s'') : Reaches N bestQuote s s'' := by
  obtain ⟨es, hes⟩ := h.run
  obtain ⟨es', hes'⟩ := h'.run
  refine ⟨⟨es ++ es', ?_⟩, h'.inv, h'.noLoss, h'.running, h'.entries.trans h.entries,
    h'.origin.trans h.origin⟩
  rw [final_append, ← hes, ← hes']

/-- The calls that are made for the rest of a batch may all succeed. -/
theorem reaches_batch (N : Numerics) (bestQuote : OrderBook → BestQuote) (hs : s.Inv)
    (hno : s.NoLoss) (hrun : s.c.exited = false) :
    ∃ s', Reaches N bestQuote s s' ∧ s'.batch = [] ∧ s'.stream.next = s.stream.next := by
  induction hbatch : s.batch generalizing s with
  | nil => exact ⟨s, ⟨⟨[], rfl⟩, hs, hno, hrun, rfl, rfl⟩, hbatch, rfl⟩
  | cons p rest ih =>
      obtain ⟨m, hm⟩ := entry_of_batch hs hbatch
      have hstep : (step N bestQuote s (.handle .ok {} 0)).1 =
          (s.handle N bestQuote p rest m .ok {} 0).1 := by simp only [step, hbatch, hm]
      have hhandled := handled_handle N bestQuote m .ok {} 0 hbatch
      have hgap : s.c.GapCallsOk m {} := by
        unfold Consumer.GapCallsOk
        cases parseMessage m.fields <;> simp
      have hgoes : (s.handle N bestQuote p rest m .ok {} 0).1.c.exited = false := by
        have hcases := handleMessage_cases N bestQuote m {} 0 hrun
        rcases hcases with ⟨-, -, h⟩ | ⟨-, h, -⟩ | ⟨-, -, -, h⟩
        · exact h
        · cases h
        · exact h.mpr hgap
      have hrest : (s.handle N bestQuote p rest m .ok {} 0).1.batch = rest := by
        have h := hgoes
        simp only [handle] at h ⊢
        rw [h]
        rfl
      have hsafe : s.Safe (.handle .ok {} 0) :=
        (safe_handle_iff hbatch hm).mpr (.inr ⟨rfl, .inl hgap⟩)
      have hreach := reaches_step N bestQuote hs hno hsafe (hstep ▸ hgoes)
        (hstep ▸ hhandled.entries) (hstep ▸ hhandled.origin)
      rw [hstep] at hreach
      obtain ⟨s', hreach', hempty, hnext⟩ := ih hreach.inv hreach.noLoss hgoes hrest
      exact ⟨s', hreach.trans hreach', hempty, hnext.trans hhandled.next⟩

/-- Batch after batch, the group comes to the end of the stream. -/
theorem reaches_end (N : Numerics) (bestQuote : OrderBook → BestQuote) (hs : s.Inv)
    (hno : s.NoLoss) (hrun : s.c.exited = false) :
    ∃ s', Reaches N bestQuote s s' ∧ s'.batch = [] ∧ s'.stream.entries.length ≤ s'.stream.next := by
  induction hleft : s.stream.entries.length - s.stream.next using Nat.strong_induction_on
    generalizing s with
  | _ n ih =>
      obtain ⟨s₁, hreach₁, hbatch₁, hnext₁⟩ := reaches_batch N bestQuote hs hno hrun
      by_cases hend : s₁.stream.entries.length ≤ s₁.stream.next
      · exact ⟨s₁, hreach₁, hbatch₁, hend⟩
      · have hstep : (step N bestQuote s₁ (.read .ok)).1 = s₁.read .ok := by
          simp only [step]
          exact if_pos ⟨hreach₁.running, hbatch₁⟩
        have hreach₂ := reaches_step N bestQuote hreach₁.inv hreach₁.noLoss
          (e := .read .ok) (fun _ _ _ h => absurd rfl h) (hstep ▸ hreach₁.running) (hstep ▸ rfl)
          (by rw [hstep]; exact Stream.origin_deliver _ _)
        rw [hstep] at hreach₂
        have horigin := hreach₁.inv.running hreach₁.running
        have hmoved : (s₁.read .ok).stream.next =
            s₁.stream.next + min 100 (s₁.stream.entries.length - s₁.stream.next) := by
          rw [← Stream.length_delivered]
          exact Stream.next_deliver horigin
        have hentries₁ := congrArg List.length hreach₁.entries
        have hentries₂ := congrArg List.length hreach₂.entries
        obtain ⟨s₃, hreach₃, hbatch₃, hend₃⟩ := ih _ (by omega) hreach₂.inv hreach₂.noLoss
          hreach₂.running rfl
        exact ⟨s₃, (hreach₁.trans hreach₂).trans hreach₃, hbatch₃, hend₃⟩

theorem reaches_running (N : Numerics) (bestQuote : OrderBook → BestQuote) (hs : s.Inv)
    (hno : s.NoLoss) (horigin : s.stream.origin ≠ none) : ∃ s', Reaches N bestQuote s s' := by
  cases hexited : s.c.exited with
  | false => exact ⟨s, ⟨⟨[], rfl⟩, hs, hno, hexited, rfl, rfl⟩⟩
  | true =>
      have hgroup : s.stream.group.isSome = true := by
        rw [Stream.origin, ne_eq, Option.map_eq_none_iff] at horigin
        exact Option.isSome_iff_ne_none.mpr horigin
      have hstep : (step N bestQuote s (.start s.c .ok true 0)).1 = s.start s.c .ok true 0 := by
        simp only [step]
        exact if_pos hexited
      have hgoes : (s.start s.c .ok true 0).c.exited = false := by
        simp [start, CallEnd.succeeds, hgroup]
      have hentries : (s.start s.c .ok true 0).stream.entries = s.stream.entries := by
        rcases (started_start s.c .ok true 0).stream with hstream | hstream <;> rw [hstream]
        exact Stream.entries_createGroup _ _
      have horigin' : (s.start s.c .ok true 0).stream.origin = s.stream.origin := by
        rcases (started_start s.c .ok true 0).origin hs with ⟨h, -⟩ | ⟨h, -⟩
        · exact h
        · exact absurd h horigin
      have hreach := reaches_step N bestQuote hs hno (e := .start s.c .ok true 0) trivial
        (hstep ▸ hgoes) (hstep ▸ hentries) (hstep ▸ horigin')
      exact ⟨_, hreach⟩

/-- **The entries are kept exactly when none is lost.** -/
theorem keepsEntries_iff_noLoss (hs : s.Inv) : s.KeepsEntries N bestQuote ↔ s.NoLoss := by
  constructor
  · rintro h p ⟨hmine, hnext, hnot⟩
    have hlost : s.Lost p := ⟨hmine, hnext, hnot⟩
    rcases h.processed p ⟨hmine, hnext.trans_le hs.bounded.next_le⟩ with hdone | ⟨es, hlater⟩
    · exact hnot (List.mem_append_left _ hdone)
    · have hkept : ∀ (s : Service) (e : StreamEvent), s.Inv ∧ s.Lost p →
          (step N bestQuote s e).1.Inv ∧ (step N bestQuote s e).1.Lost p :=
        fun _ e h => ⟨inv_step h.1 e, lost_step h.1 e h.2⟩
      have hforever := final_invariant hkept es ⟨hs, hlost⟩
      exact hforever.2.2.2 (List.mem_append_left _ hlater)
  · intro hno
    refine ⟨fun p hp => ?_, fun p q hp hlt hq => ?_⟩
    · obtain ⟨⟨o, ho, hle⟩, hin⟩ := hp
      have horigin : s.stream.origin ≠ none := by
        rw [Option.mem_def.mp ho]
        exact Option.some_ne_none o
      obtain ⟨s₁, hreach₁⟩ := reaches_running N bestQuote hs hno horigin
      obtain ⟨s₂, hreach₂, hbatch₂, hend₂⟩ := reaches_end N bestQuote hreach₁.inv hreach₁.noLoss
        hreach₁.running
      have hreach := hreach₁.trans hreach₂
      obtain ⟨es, hes⟩ := hreach.run
      refine .inr ⟨es, ?_⟩
      rw [← hes]
      by_contra hnot
      refine hreach.noLoss p ⟨⟨o, hreach.origin ▸ ho, hle⟩, ?_, ?_⟩
      · have hlength := congrArg List.length hreach.entries
        omega
      · rw [held, hbatch₂, List.append_nil]
        exact hnot
    · by_contra hnot
      refine hno p ⟨hp.1, hlt.trans (hs.below q (List.mem_append_left _ hq)), fun hheld => ?_⟩
      rcases List.mem_append.mp hheld with hdone | hbatch
      · exact hnot hdone
      · have hback := (List.pairwise_append.mp hs.ordered).2.2 q hq p hbatch
        omega

/-- **The entries are kept at the end of a run exactly when every step of it is safe.** -/
theorem keepsEntries_iff (N : Numerics) (bestQuote : OrderBook → BestQuote)
    (exchange symbol : String) (coldBufSize : ℕ) (es : List StreamEvent) :
    (final (step N bestQuote) (new exchange symbol coldBufSize) es).KeepsEntries N bestQuote ↔
      Along (step N bestQuote) Safe (new exchange symbol coldBufSize) es := by
  have hnew := inv_new exchange symbol coldBufSize
  have hno : (new exchange symbol coldBufSize).NoLoss := by
    rintro p ⟨⟨o, ho, -⟩, -⟩
    exact Option.not_mem_none o ho
  have hfinal : (final (step N bestQuote) (new exchange symbol coldBufSize) es).Inv :=
    final_invariant (I := Inv) (fun _ e hs => inv_step hs e) es hnew
  rw [keepsEntries_iff_noLoss hfinal]
  refine final_iff_along_of_invariant (I := NoLoss) (J := Inv) (fun _ e hs => inv_step hs e)
    (fun s e hs hlost => ?_) (fun _ e hs hno => noLoss_step_iff hs hno e) es hnew hno
  rw [NoLoss, not_forall_not] at hlost ⊢
  obtain ⟨p, hp⟩ := hlost
  exact ⟨p, lost_step hs e hp⟩

def trade (id size : String) : Message :=
  ⟨id, [("type", "tick"), ("event_type", "trade"), ("price", "7"), ("size", size)]⟩

/-- Of a batch of two trades the first is handled; the acknowledgement of the second fails.  The
next run reads a third. -/
def failedAck : List StreamEvent :=
  let consumer : Consumer := .new "bybit" "BTC-USDT" 1000
  [.start consumer .ok true 0, .add (trade "1-0" "3"), .add (trade "2-0" "5"), .read .ok,
    .handle .ok {} 60100, .handle .failed {} 60200, .start consumer .ok true 60300,
    .add (trade "3-0" "8"), .read .ok, .handle .ok {} 60400]

/-- The second trade is never processed. -/
theorem second_trade_is_lost :
    ¬ (final (step Ledger.fractions fun _ => ⟨"", "", "", ""⟩) (new "bybit" "BTC-USDT" 1000)
      failedAck).KeepsEntries Ledger.fractions fun _ => ⟨"", "", "", ""⟩ := by
  intro h
  have hmine : (final (step Ledger.fractions fun _ => ⟨"", "", "", ""⟩)
      (new "bybit" "BTC-USDT" 1000) failedAck).Mine 1 := ⟨⟨0, by decide +kernel, by decide⟩,
    by decide +kernel⟩
  have hthird : 2 ∈ (final (step Ledger.fractions fun _ => ⟨"", "", "", ""⟩)
      (new "bybit" "BTC-USDT" 1000) failedAck).processed := by decide +kernel
  exact absurd (h.inOrder 1 2 hmine (by decide) hthird) (by decide +kernel)

end Service

end MagnumOpus.Candle
