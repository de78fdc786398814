import MagnumOpus.Aggregator.TickPipeline
import MagnumOpus.Aggregator.GapMarkers
import MagnumOpus.Aggregator.Resync

/-! # Losses inside the aggregator

When order-book ticks of a symbol are dropped on their way to its worker, a gap marker is to be
written before the next one is applied (`Announces`).

* **When it is.** The worker has only the sequences of the ticks to go by, so a loss is announced
  exactly when the tick that comes after it reveals a gap (`Notices`, `announces_iff`).
* **What is noticed.** `reveals_kucoin_iff_lost` and `reveals_bybit_iff_lost`: the first delta of a
  message reveals a gap when at least one message is missing altogether.  A loss inside a message,
  or at its end, is not announced: `not_announces_later`, `not_announces_next`.
* **No loss.** While the channels have room nothing is lost (`announces_of_room`). -/

namespace MagnumOpus.Aggregator

open EventMachine LossyQueue Reconnect

/-- The effect applies a tick to the book. -/
def isApplied : Effect → Bool
  | .applyDelta _ => true
  | _ => false

/-- A loss is announced before a tick is applied. -/
def Announced : Bool → List Effect → Prop
  | _, [] => True
  | silent, f :: fs => (isApplied f = true → silent = false) ∧ Announced (silent && !isGap f) fs

instance decidableAnnounced : ∀ (silent : Bool) (fs : List Effect), Decidable (Announced silent fs)
  | _, [] => isTrue trivial
  | silent, f :: fs => @instDecidableAnd _ _ _ (decidableAnnounced (silent && !isGap f) fs)

namespace Worker

/-- The handler comes to apply a tick that reveals no gap. -/
def Reaches (w : Worker) (e : Event) (t : Tick) : Prop :=
  e.input = .tick t ∧ t.type = .update ∧ w.returned = false ∧ w.recon.state ≠ .buffering ∧
    ∀ k ∈ e.panicAt, 2 ≤ k

/-! ### One turn of a worker -/

theorem announced_append {b : Bool} {fs gs : List Effect} :
    Announced b (fs ++ gs) ↔ Announced b fs ∧ Announced (b && !fs.any isGap) gs := by
  induction fs generalizing b with
  | nil => simp [Announced]
  | cons f fs ih =>
      simp only [List.cons_append, Announced, ih, List.any_cons, and_assoc, Bool.not_or,
        Bool.and_assoc]

theorem announced_false : ∀ fs : List Effect, Announced false fs
  | [] => trivial
  | _ :: fs => ⟨fun _ => rfl, announced_false fs⟩

theorem announced_of_none {b : Bool} : ∀ {fs : List Effect}, (∀ f ∈ fs, isApplied f = false) →
    Announced b fs
  | [], _ => trivial
  | f :: fs, h => by
      have hf := h f List.mem_cons_self
      refine ⟨fun ha => ?_, ?_⟩
      · rw [hf] at ha
        cases ha
      · cases b with
        | false => exact announced_false fs
        | true => exact announced_of_none fun g hg => h g (List.mem_cons_of_mem f hg)

theorem announced_of_isPrefix {b : Bool} {fs gs : List Effect} (h : fs <+: gs)
    (hg : Announced b gs) : Announced b fs := by
  obtain ⟨rest, rfl⟩ := h
  exact (announced_append.mp hg).1

variable {w : Worker} {e : Event} {t : Tick}

/-- Only a handled update is applied. -/
theorem applied_of_exec {f : Effect} (hw : w.returned = false)
    (hf : f ∈ (exec (body e w) w).2) (ha : isApplied f = true) :
    ∃ t, e.input = .tick t ∧ t.type = .update ∧ w.recon.state ≠ .buffering := by
  have htouch : touchesBook f = true := by
    cases f <;> first | rfl | cases ha
  by_cases hex : ∃ t, e.input = .tick t ∧ t.type ≠ .trade ∧ w.recon.state ≠ .buffering
  · obtain ⟨t, hi, ht, hs⟩ := hex
    refine ⟨t, hi, ?_, hs⟩
    by_contra hu
    rw [body, hi, exec_handleTick hs ht] at hf
    simp only [if_neg hu, List.nil_append] at hf
    have hnone : ∀ f ∈ w.gapEffects t e.now ++ [.streamWrite t, .ilpWrite t],
        isApplied f = false := by
      unfold gapEffects
      split <;> simp [isApplied]
    rw [hnone f hf] at ha
    cases ha
  · exfalso
    have hnone := untouched_body hw (e := e) (fun t hi ht => by
      by_contra hs
      exact hex ⟨t, hi, ht, hs⟩) f hf
    rw [hnone] at htouch
    cases htouch

/-- A handler that panics after `k` statements does what the first `k` do, and then no tick is
applied. -/
theorem announced_panicked {k : ℕ} (hw : w.returned = false) (hp : e.panicAt = some k) (b : Bool) :
    Announced b (step w e).2 ↔ Announced b (exec ((body e w).take k) w).2 := by
  rw [step_panicked hw hp, announced_append]
  exact and_iff_left (announced_of_none (by simp [isApplied]))

/-- The statements of a handler that applies a tick without a gap. -/
theorem handleTick_of_not_reveals (ht : t.type = .update) (hs : w.recon.state ≠ .buffering)
    (hr : ¬ w.Reveals t) (now : Int64) :
    handleTick t now w = update (track t) :: applyTick t ::
      [emit (.streamWrite t), emit (.ilpWrite t), publishBook t] := by
  have htrade : t.type ≠ .trade := by rw [ht]; decide
  rw [handleTick, if_neg htrade, if_neg hs, tickGap_eq, if_neg hr]
  simp [ht]

/-- The effects of a tick that reveals a gap begin with the marker. -/
theorem announced_of_reveals (ht : t.type = .update) (hs : w.recon.state ≠ .buffering)
    (hr : w.Reveals t) (now : Int64) (b : Bool) :
    Announced b (exec (handleTick t now w) w).2 := by
  rw [exec_handleTick_update hs ht, gapEffects, tickGap_eq, if_pos hr, announced_append]
  refine ⟨announced_of_none (by simp [isApplied]), ?_⟩
  simp only [List.any_cons, isGap, Bool.true_or, Bool.not_true, Bool.and_false]
  exact announced_false _

/-- **One turn.** A loss is announced before the next tick is applied exactly when the tick that
the handler comes to apply reveals a gap. -/
theorem announced_step_iff :
    Announced true (step w e).2 ↔ ∀ t, w.Reaches e t → w.Reveals t := by
  cases hw : w.returned with
  | true =>
      rw [step_returned hw]
      refine ⟨fun _ t h => ?_, fun _ => trivial⟩
      rw [h.2.2.1] at hw
      cases hw
  | false =>
      by_cases happ : ∃ t, e.input = .tick t ∧ t.type = .update ∧ w.recon.state ≠ .buffering
      · obtain ⟨t, hi, ht, hs⟩ := happ
        have hbody : body e w = handleTick t e.now w := by rw [body, hi]
        by_cases hr : w.Reveals t
        · -- The marker comes first, also when the handler panics later on.
          have hann := announced_of_reveals ht hs hr e.now true
          refine ⟨fun _ t' h => ?_, fun _ => ?_⟩
          · obtain rfl := Input.tick.inj (hi.symm.trans h.1)
            exact hr
          · cases hp : e.panicAt with
            | none =>
                rw [step_eq_exec hw hp, hbody]
                exact hann
            | some k =>
                rw [announced_panicked hw hp, hbody]
                exact announced_of_isPrefix (exec_take_isPrefix _ k w) hann
        · have hstmts := handleTick_of_not_reveals ht hs hr e.now
          constructor
          · intro hann t' h
            exfalso
            obtain ⟨hi', -, -, -, hk⟩ := h
            cases hp : e.panicAt with
            | none =>
                rw [step_eq_exec hw hp, hbody, hstmts] at hann
                have hfalse := hann.1 rfl
                cases hfalse
            | some k =>
                obtain ⟨n, rfl⟩ : ∃ n, k = n + 2 := ⟨k - 2, by have := hk k hp; omega⟩
                rw [announced_panicked hw hp, hbody, hstmts] at hann
                have hfalse := hann.1 rfl
                cases hfalse
          · intro h
            cases hp : e.panicAt with
            | none => exact absurd (h t ⟨hi, ht, hw, hs, by simp [hp]⟩) hr
            | some k =>
                have hk : k < 2 := by
                  by_contra hk
                  exact hr (h t ⟨hi, ht, hw, hs, fun n hn => by
                    rw [hp] at hn
                    cases hn
                    omega⟩)
                rw [announced_panicked hw hp, hbody, hstmts]
                obtain rfl | rfl : k = 0 ∨ k = 1 := by omega
                · trivial
                · trivial
      · -- The handler applies nothing.
        refine ⟨fun _ t h => absurd ⟨t, h.1, h.2.1, h.2.2.2.1⟩ happ, fun _ => ?_⟩
        have hnone : ∀ f ∈ (exec (body e w) w).2, isApplied f = false := by
          intro f hf
          by_contra ha
          exact happ (applied_of_exec hw hf (Bool.not_eq_false _ ▸ ha))
        cases hp : e.panicAt with
        | none =>
            rw [step_eq_exec hw hp]
            exact announced_of_none hnone
        | some k =>
            rw [announced_panicked hw hp]
            exact announced_of_isPrefix (exec_take_isPrefix _ k w) (announced_of_none hnone)

end Worker

/-! ### Runs of the pipeline -/

namespace Pipeline

/-- The turn that the event gives to a worker announces a loss before the next tick is applied. -/
def Announces (p : Pipeline) (e : PipelineEvent) : Prop :=
  ∀ turn ∈ p.turnOf e, Announced turn.line.silent (turn.line.worker.step turn.event).2

/-- The tick that a worker comes to apply after a loss reveals a gap. -/
def Notices (p : Pipeline) (e : PipelineEvent) : Prop :=
  ∀ turn ∈ p.turnOf e, turn.line.silent = true →
    ∀ t, turn.line.worker.Reaches turn.event t → turn.line.worker.Reveals t

instance (p : Pipeline) (e : PipelineEvent) : Decidable (Announces p e) :=
  inferInstanceAs (Decidable (∀ turn ∈ p.turnOf e, Announced _ _))

theorem announces_iff_notices (p : Pipeline) (e : PipelineEvent) : Announces p e ↔ Notices p e := by
  have hturn : ∀ turn : Turn, Announced turn.line.silent (turn.line.worker.step turn.event).2 ↔
      (turn.line.silent = true →
        ∀ t, turn.line.worker.Reaches turn.event t → turn.line.worker.Reveals t) := by
    intro turn
    cases turn.line.silent with
    | false => exact ⟨fun _ h => (by cases h), fun _ => Worker.announced_false _⟩
    | true =>
        rw [Worker.announced_step_iff]
        exact ⟨fun h _ => h, fun h => h rfl⟩
  constructor
  · exact fun h turn hmem => (hturn turn).mp (h turn hmem)
  · exact fun h turn hmem => (hturn turn).mpr (h turn hmem)

/-- **In every run losses are announced exactly when each tick that comes to be applied after one
reveals a gap.** -/
theorem announces_iff (exch : String) (es : List PipelineEvent) :
    Along step Announces (new exch) es ↔ Along step Notices (new exch) es :=
  ⟨Along.imp (fun p e h => (announces_iff_notices p e).mp h) es,
    Along.imp (fun p e h => (announces_iff_notices p e).mpr h) es⟩

end Pipeline

/-! ### Which losses are noticed -/

namespace Worker

variable {w : Worker} {t : Tick}

/-- The first delta of a KuCoin message, when the messages `lost` came between it and the tracker.
-/
theorem reveals_kucoin_iff_lost {lost : List SeqTracker.Item} (hend : t.msgSeqEnd ≠ 0)
    (hseen : 0 < w.lastMsgSeqEnd.toNat)
    (hlost : SeqTracker.Contiguous (w.lastMsgSeqEnd.toNat + 1) lost)
    (hstart : t.msgSeqStart.toNat = SeqTracker.stop (w.lastMsgSeqEnd.toNat + 1) lost) :
    w.Reveals t ↔ lost ≠ [] := by
  have hle := SeqTracker.le_stop hlost
  rw [reveals_kucoin hend (by omega), and_iff_right hseen, hstart]
  exact SeqTracker.stop_ne_iff hlost

/-- A level of a Bybit message, when the messages `lost` came between it and the tracker. -/
theorem reveals_bybit_iff_lost {lost : List SeqTracker.Item} (hend : t.msgSeqEnd = 0)
    (hseen : 0 < w.lastSeq.toNat) (hlost : SeqTracker.Contiguous (w.lastSeq.toNat + 1) lost)
    (hseq : t.seq.toNat = SeqTracker.stop (w.lastSeq.toNat + 1) lost) :
    w.Reveals t ↔ lost ≠ [] := by
  have hle := SeqTracker.le_stop hlost
  rw [reveals_bybit hend (by omega), and_iff_right hseen, hseq]
  exact SeqTracker.stop_ne_iff hlost

end Worker

namespace Pipeline

variable {p : Pipeline} {e : PipelineEvent} {turn : Turn} {t : Tick}

/-- A loss before a tick that is applied and reveals no gap is not announced. -/
theorem not_announces (hturn : turn ∈ p.turnOf e) (hsilent : turn.line.silent = true)
    (hreach : turn.line.worker.Reaches turn.event t) (hr : ¬ turn.line.worker.Reveals t) :
    ¬ Announces p e := by
  rw [announces_iff_notices]
  intro h
  exact hr (h turn hturn hsilent t hreach)

/-- A loss before a later delta of a KuCoin message is never announced. -/
theorem not_announces_later (hturn : turn ∈ p.turnOf e) (hsilent : turn.line.silent = true)
    (hreach : turn.line.worker.Reaches turn.event t) (hend : t.msgSeqEnd ≠ 0)
    (hstart : t.msgSeqStart = 0) : ¬ Announces p e :=
  not_announces hturn hsilent hreach (Worker.not_reveals_later hend hstart)

/-- Neither is one at the end of the KuCoin message before the tick's. -/
theorem not_announces_next (hturn : turn ∈ p.turnOf e) (hsilent : turn.line.silent = true)
    (hreach : turn.line.worker.Reaches turn.event t) (hend : t.msgSeqEnd ≠ 0)
    (hstart : t.msgSeqStart = turn.line.worker.lastMsgSeqEnd + 1) : ¬ Announces p e := by
  refine not_announces hturn hsilent hreach fun hr => ?_
  rw [Worker.Reveals, if_pos hend] at hr
  exact hr.2.2 hstart

/-- Neither is one before a level of the Bybit message that follows the tracked one. -/
theorem not_announces_level (hturn : turn ∈ p.turnOf e) (hsilent : turn.line.silent = true)
    (hreach : turn.line.worker.Reaches turn.event t) (hend : t.msgSeqEnd = 0)
    (hseq : t.seq = turn.line.worker.lastSeq + 1) : ¬ Announces p e := by
  refine not_announces hturn hsilent hreach fun hr => ?_
  rw [Worker.Reveals, if_neg (not_not.mpr hend)] at hr
  exact hr.2 hseq

/-! ### Channels with room -/

/-- A turn finds the line of its symbol, from which a tick may have been taken. -/
theorem line_of_turn (hturn : turn ∈ p.turnOf e) : ∃ line ∈ p.symMap turn.sym,
    turn.line = line ∨ ∃ lost t rest, LossyQueue.receive line.deltas = some (lost, t, rest) ∧
      turn.line = { line with deltas := rest, silent := line.silent || lost.any isOrderBook } := by
  have hrunning : ∀ {sym line}, line ∈ p.running sym → line ∈ p.symMap sym :=
    fun hmem => (Option.filter_eq_some_iff.mp hmem).1
  cases e with
  | tick sym now panicAt =>
      obtain ⟨line, hline, hturn⟩ := Option.bind_eq_some_iff.mp hturn
      obtain ⟨⟨lost, t, rest⟩, hr, rfl⟩ := Option.map_eq_some_iff.mp hturn
      exact ⟨line, hrunning hline, .inr ⟨lost, t, rest, hr, rfl⟩⟩
  | snapshot sym r answers now panicAt =>
      obtain ⟨line, hline, rfl⟩ := Option.map_eq_some_iff.mp hturn
      exact ⟨line, hrunning hline, .inl rfl⟩
  | done sym now panicAt =>
      obtain ⟨line, hline, rfl⟩ := Option.map_eq_some_iff.mp hturn
      exact ⟨line, hrunning hline, .inl rfl⟩
  | read t => cases hturn
  | receive => cases hturn
  | route => cases hturn
  | add sym pub => cases hturn

/-- The channel that the event sends to has room. -/
def HasRoom (p : Pipeline) : PipelineEvent → Prop
  | .read _ => (items p.ticks).length < tickBuf
  | .route => ∀ held ∈ p.held, ∀ line ∈ p.symMap held.2.symbol,
      (items line.deltas).length < deltaChanCap
  | _ => True

/-- Nothing has been lost. -/
structure Lossless (p : Pipeline) : Prop where
  ticks : Whole p.ticks
  held : ∀ held ∈ p.held, held.1 = []
  deltas : ∀ sym, ∀ line ∈ p.symMap sym, Whole line.deltas ∧ line.silent = false

theorem Lossless.setLine (h : Lossless p) {sym : Symbol} {line : Line} (hline : Whole line.deltas)
    (hsilent : line.silent = false) : Lossless (p.setLine sym line) := by
  refine ⟨h.ticks, h.held, fun sym' line' hmem => ?_⟩
  by_cases hs : sym' = sym
  · subst hs
    rw [symMap_setLine] at hmem
    cases hmem
    exact ⟨hline, hsilent⟩
  · rw [symMap_setLine_of_ne p hs] at hmem
    exact h.deltas sym' line' hmem

/-- Without losses a worker finds a line that is not silent. -/
theorem Lossless.of_turn (h : Lossless p) (hturn : turn ∈ p.turnOf e) :
    Whole turn.line.deltas ∧ turn.line.silent = false := by
  obtain ⟨line, hline, hsame | ⟨lost, t, rest, hr, hreceived⟩⟩ := line_of_turn hturn
  · rw [hsame]
    exact h.deltas _ line hline
  · obtain ⟨hwhole, hsilent⟩ := h.deltas _ line hline
    obtain ⟨rfl, hrest⟩ := hwhole.receive hr
    rw [hreceived]
    exact ⟨hrest, by simp [hsilent]⟩

/-- The turn of a worker loses nothing. -/
theorem Lossless.afterTurn (h : Lossless p) (hturn : turn ∈ p.turnOf e) :
    Lossless (p.setLine turn.sym (Pipeline.afterTurn turn)) := by
  obtain ⟨hwhole, hsilent⟩ := h.of_turn hturn
  refine h.setLine hwhole ?_
  show (turn.line.silent && _) = false
  rw [hsilent, Bool.false_and]

theorem lossless_step (h : Lossless p) (hroom : HasRoom p e) : Lossless (step p e).1 := by
  cases e with
  | read t => exact ⟨h.ticks.send hroom, h.held, h.deltas⟩
  | receive =>
      simp only [step, Pipeline.receive]
      split
      · next lost t rest hheld hr =>
          obtain ⟨rfl, hrest⟩ := h.ticks.receive hr
          refine ⟨hrest, fun held hmem => ?_, h.deltas⟩
          cases hmem
          rfl
      · exact h
  | route =>
      simp only [step, route]
      cases hheld : p.held with
      | none => exact h
      | some held =>
          obtain ⟨lost, t⟩ := held
          obtain rfl : lost = [] := h.held _ hheld
          have hfree : Lossless { p with held := none } :=
            ⟨h.ticks, fun held hmem => (by cases hmem), h.deltas⟩
          simp only [List.foldl_nil, deliver]
          cases hline : p.symMap t.symbol with
          | none => exact hfree
          | some line =>
              obtain ⟨hwhole, hsilent⟩ := h.deltas _ line hline
              exact hfree.setLine (hwhole.send (hroom _ hheld line hline)) hsilent
  | add sym pub =>
      simp only [step, addSymbol]
      cases p.symMap sym with
      | some line => exact h
      | none => exact h.setLine (fun a ha => (by cases ha)) rfl
  | _ =>
      simp only [step]
      split
      · exact h
      · next turn hturn => exact h.afterTurn hturn

/-- **While the channels have room, there is nothing to announce.** -/
theorem announces_of_room (exch : String) (es : List PipelineEvent)
    (h : Along step HasRoom (new exch) es) : Along step Announces (new exch) es := by
  refine along_of_invariant (I := Lossless) ?_ es ?_ h
  · intro p e hp hroom
    refine ⟨fun turn hturn => ?_, lossless_step hp hroom⟩
    rw [(hp.of_turn hturn).2]
    exact Worker.announced_false _
  · exact ⟨fun a ha => (by cases ha), fun held hmem => (by cases hmem),
      fun sym line hmem => (by cases hmem)⟩

/-- No channel holds more than it has room for. -/
structure Bounded (p : Pipeline) : Prop where
  ticks : (items p.ticks).length ≤ tickBuf
  deltas : ∀ sym, ∀ line ∈ p.symMap sym, (items line.deltas).length ≤ deltaChanCap

theorem Bounded.setLine (h : Bounded p) {sym : Symbol} {line : Line}
    (hline : (items line.deltas).length ≤ deltaChanCap) : Bounded (p.setLine sym line) := by
  refine ⟨h.ticks, fun sym' line' hmem => ?_⟩
  by_cases hs : sym' = sym
  · subst hs
    rw [symMap_setLine] at hmem
    cases hmem
    exact hline
  · rw [symMap_setLine_of_ne p hs] at hmem
    exact h.deltas sym' line' hmem

/-- Marks take no room. -/
theorem Bounded.mark (h : Bounded p) (t : Tick) : Bounded (p.mark t) := by
  unfold Pipeline.mark
  cases hline : p.symMap t.symbol with
  | none => exact h
  | some line =>
      refine h.setLine ?_
      rw [items_append, List.length_append]
      exact h.deltas t.symbol line hline

theorem Bounded.marks (lost : List Tick) : ∀ {p : Pipeline}, Bounded p →
    Bounded (lost.foldl Pipeline.mark p) := by
  induction lost with
  | nil => exact fun h => h
  | cons t lost ih => exact fun h => ih (h.mark t)

theorem Bounded.deliver (h : Bounded p) (t : Tick) : Bounded (p.deliver t) := by
  unfold Pipeline.deliver
  cases hline : p.symMap t.symbol with
  | none => exact h
  | some line => exact h.setLine (length_items_send (h.deltas t.symbol line hline))

/-- A worker takes ticks from its channel and puts none there. -/
theorem Bounded.of_turn (h : Bounded p) (hturn : turn ∈ p.turnOf e) :
    (items turn.line.deltas).length ≤ deltaChanCap := by
  obtain ⟨line, hline, hsame | ⟨lost, t, rest, hr, hreceived⟩⟩ := line_of_turn hturn
  · rw [hsame]
    exact h.deltas _ line hline
  · have hle := h.deltas _ line hline
    rw [items_receive hr, List.length_cons] at hle
    rw [hreceived]
    show (items rest).length ≤ deltaChanCap
    omega

theorem bounded_step (p : Pipeline) (e : PipelineEvent) (h : Bounded p) :
    Bounded (step p e).1 := by
  cases e with
  | read t => exact ⟨length_items_send h.ticks, h.deltas⟩
  | receive =>
      simp only [step, Pipeline.receive]
      split
      · next lost t rest hheld hr =>
          have hle := h.ticks
          rw [items_receive hr, List.length_cons] at hle
          exact ⟨by show (items rest).length ≤ tickBuf; omega, h.deltas⟩
      · exact h
  | route =>
      simp only [step, route]
      cases p.held with
      | none => exact h
      | some held =>
          have hfree : Bounded { p with held := none } := ⟨h.ticks, h.deltas⟩
          exact (Bounded.marks held.1 hfree).deliver held.2
  | add sym pub =>
      simp only [step, addSymbol]
      cases p.symMap sym with
      | some line => exact h
      | none => exact h.setLine (Nat.zero_le _)
  | _ =>
      simp only [step]
      split
      · exact h
      · next turn hturn => exact h.setLine (h.of_turn hturn)

/-- **The channels keep to their capacity** in every run. -/
theorem bounded_run (exch : String) (es : List PipelineEvent) :
    Bounded (final step (new exch) es) :=
  final_invariant bounded_step es
    ⟨Nat.zero_le _, fun sym line hmem => (by cases hmem)⟩

/-! ### A run with a loss -/

/-- A tick of a KuCoin message that covers the numbers up to `last`. -/
def obTick (seq start last : UInt64) : Tick where
  exchange := "kucoin"
  symbol := "BTC-USDT"
  seq := seq
  tsExchange := 0
  tsLocal := 0
  side := "bid"
  price := "100"
  size := "1"
  type := .update
  msgSeqStart := start
  msgSeqEnd := last

def tradeTick : Tick := { obTick 1 0 0 with type := .trade }

/-- A tick comes from the reader to the channel of its symbol. -/
def pass (t : Tick) : List PipelineEvent := [.read t, .receive, .route]

/-- When nothing else is on the way, a tick comes to the channel of its symbol. -/
theorem final_pass (hticks : p.ticks = []) (hheld : p.held = none) (t : Tick) :
    final step p (pass t) = p.deliver t := by
  obtain ⟨exch, ticks, held, symMap⟩ := p
  subst hticks hheld
  rfl

/-- Ticks for which there is room stand in the channel one after another. -/
theorem final_passes : ∀ (n : ℕ) (p : Pipeline) {line : Line}, p.ticks = [] → p.held = none →
    p.symMap t.symbol = some line → (items line.deltas).length + n ≤ deltaChanCap →
    final step p (List.replicate n (pass t)).flatten =
      p.setLine t.symbol { line with deltas := line.deltas ++ List.replicate n (.item t) }
  | 0, p, line, _, _, hline, _ => by
      rw [List.replicate_zero, List.replicate_zero, List.append_nil, setLine, ← hline,
        Function.update_eq_self]
      rfl
  | n + 1, p, line, hticks, hheld, hline, hroom => by
      let next : Line := { line with deltas := line.deltas ++ [.item t] }
      have hsend : send deltaChanCap line.deltas t = line.deltas ++ [.item t] := by
        rw [send, if_pos (by omega)]
      have hdeliver : p.deliver t = p.setLine t.symbol next := by
        rw [deliver, hline]
        simp only [hsend, next]
      have hroom' : (items next.deltas).length + n ≤ deltaChanCap := by
        simp only [next, items_append, items_item, items_nil, List.length_append,
          List.length_singleton]
        omega
      have hrest := final_passes n (p.setLine t.symbol next) hticks hheld
        (symMap_setLine p t.symbol next) hroom'
      rw [List.replicate_succ, List.flatten_cons, final_append, final_pass hticks hheld, hdeliver,
        hrest]
      simp [setLine, next, List.replicate_succ]

/-- The worker goes live at 6 and falls behind, so that there is no room for the last tick of the
message that covers 7 and 8; then it catches up, and the message at 9 comes in. -/
def lastTickLost : List PipelineEvent :=
  [.add "BTC-USDT" false, .snapshot "BTC-USDT" ⟨6, ∅, ∅⟩ 0 0 none] ++
    (List.replicate 255 (pass tradeTick)).flatten ++ pass (obTick 7 7 8) ++ pass (obTick 8 0 8) ++
    List.replicate 256 (.tick "BTC-USDT" 0 none) ++ pass (obTick 9 9 9) ++
    [.tick "BTC-USDT" 0 none]

/-- The tick at 9 is applied without a marker, although the one at 8 was lost. -/
theorem last_tick_lost_in_silence : ¬ Along step Announces (new "kucoin") lastTickLost := by
  intro h
  have hlast := (along_append.mp h).2.1
  let live := final step (new "kucoin")
    [.add "BTC-USDT" false, .snapshot "BTC-USDT" ⟨6, ∅, ∅⟩ 0 0 none]
  have hfill := final_passes (t := tradeTick) 255 live rfl rfl rfl (by decide)
  rw [final_append, final_append, final_append, final_append, final_append, hfill] at hlast
  revert hlast
  decide +kernel

end Pipeline

end MagnumOpus.Aggregator
