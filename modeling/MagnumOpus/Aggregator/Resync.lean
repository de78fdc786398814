import MagnumOpus.Aggregator.WorkerSteps

/-! # Resynchronisation after a gap

Once a gap marker is written, the book is to stand still until a snapshot that was requested after
the marker has been merged.  From then on the deltas that continue its sequence are to be applied,
also where the exchange has begun to count anew.

* **The watch.** `Watch` reads the effects of a worker in order.  A marker makes it wait, for a
  snapshot that answers a request made from then on; the merge of such a snapshot ends the wait.
  `Resyncs` says that during a step no order-book tick is applied or written while the watch waits,
  that it does not wait in vain (a request has been made, or the loop has ended), and that a tick
  that follows the last one is not dropped as out of order.
* **When it holds.** Stale snapshots and panics lead back to buffering and ask for a snapshot; a gap
  that a tick reveals does neither, and a tick that is not checked may take the tracker back below
  the book without a marker.  `along_resyncs` is the rule for whole runs: as long as no tick reveals
  a gap or takes the tracker back and no answer to an earlier request is merged, every step
  resynchronises.  A tick that reveals a gap always breaks it.
* **The invariant.** Outside of buffering the book is not ahead of the tracker (`Behind`).
* **What follows a detected gap.** After a restart of the exchange's sequence the deltas are
  discarded for ever: `discards_restarted`. -/

namespace MagnumOpus.Aggregator

open EventMachine Reconnect

/-- What is known of the markers that a worker has written. -/
structure Watch where
  /-- How many snapshots have been requested. -/
  requests : ℕ
  /-- When the last marker has not been made good: how many snapshots had been requested. -/
  owed : Option ℕ
deriving DecidableEq

namespace Watch

/-- The watch after an effect of a step that handles the answer to request `answers`, if to any. -/
def see (answers : Option ℕ) (s : Watch) : Effect → Watch
  | .streamGap _ _ _ => { s with owed := some s.requests }
  | .requestSnapshot _ _ _ => { s with requests := s.requests + 1 }
  | .streamSnapshot _ _ _ _ =>
      match s.owed, answers with
      | some n, some k => if n ≤ k then { s with owed := none } else s
      | _, _ => s
  | _ => s

/-- The watch after the effects of a step. -/
def seeAll (answers : Option ℕ) (s : Watch) (effects : List Effect) : Watch :=
  effects.foldl (see answers) s

end Watch

/-- The effect applies an order-book tick to the book or writes one to the stream. -/
def touchesBook : Effect → Bool
  | .applyDelta _ => true
  | .streamWrite t => t.type = .update
  | _ => false

/-- No order-book tick is applied or written while the watch waits. -/
def Tolerates (answers : Option ℕ) : Watch → List Effect → Prop
  | _, [] => True
  | s, f :: fs => (touchesBook f = true → s.owed = none) ∧ Tolerates answers (s.see answers f) fs

/-- The request that the snapshot of an event answers. -/
def answersOf (e : Event) : Option ℕ :=
  match e.input with
  | .snapshot _ k => some k
  | _ => none

namespace Worker

/-- A turn of the loop under watch. -/
def watchedStep : Step (Worker × Watch) Event Effect := fun p e =>
  (((step p.1 e).1, p.2.seeAll (answersOf e) (step p.1 e).2), (step p.1 e).2)

/-- The entry of the loop under watch. -/
def watchedStart (w : Worker) : Worker × Watch :=
  ((start w).1, Watch.seeAll none ⟨0, none⟩ (start w).2)

/-- The tick continues the sequence that its exchange is checked by.  On KuCoin only the first tick
of a message can. -/
def Follows (w : Worker) (t : Tick) : Prop :=
  if t.msgSeqEnd ≠ 0 then 0 < t.msgSeqStart ∧ t.msgSeqStart = w.lastMsgSeqEnd + 1
  else t.seq = w.lastSeq + 1

instance (w : Worker) (t : Tick) : Decidable (Follows w t) :=
  inferInstanceAs (Decidable
    (if t.msgSeqEnd ≠ 0 then 0 < t.msgSeqStart ∧ t.msgSeqStart = w.lastMsgSeqEnd + 1
    else t.seq = w.lastSeq + 1))

/-- The event is an order-book tick that is handled outside of buffering. -/
def Handles (w : Worker) (e : Event) (t : Tick) : Prop :=
  e.input = .tick t ∧ t.type ≠ .trade ∧ w.returned = false ∧ w.recon.state ≠ .buffering

/-- The step resynchronises. -/
structure Resyncs (p : Worker × Watch) (e : Event) : Prop where
  held : Tolerates (answersOf e) p.2 (step p.1 e).2
  requested : ∀ n, (watchedStep p e).1.2.owed = some n →
    n < (watchedStep p e).1.2.requests ∨ (watchedStep p e).1.1.returned = true
  /-- A delta that continues the sequence is not discarded as out of order. -/
  applied : ∀ t, Handles p.1 e t → t.type = .update → e.panicAt = none → Follows p.1 t →
    (step p.1 e).1.book = p.1.book.change t.delta

/-- The event is an order-book tick that reveals a gap. -/
def Detects (w : Worker) (e : Event) : Prop := ∃ t, Handles w e t ∧ w.Reveals t

/-- The tracker that a tick is checked by. -/
def counter (w : Worker) (t : Tick) : UInt64 :=
  if t.msgSeqEnd ≠ 0 then w.lastMsgSeqEnd else w.lastSeq

/-- The tick is numbered as its exchange numbers: on KuCoin by message, and within the numbers of
its message, elsewhere on its own. -/
structure Numbered (exch : String) (t : Tick) : Prop where
  byMessage : t.msgSeqEnd ≠ 0 ↔ exch = "kucoin"
  within : t.msgSeqEnd ≠ 0 → t.msgSeqStart ≤ t.seq ∧ t.seq ≤ t.msgSeqEnd

/-- The event reveals no gap and takes no sequence back, and a snapshot that it brings answers the
latest request. -/
structure Orderly (p : Worker × Watch) (e : Event) : Prop where
  contiguous : ¬ Detects p.1 e
  /-- The check lets a tick pass that has no `msgSeqStart`, or is the first one of a message whose
  numbers begin at 0 again. -/
  steady : ∀ t, Handles p.1 e t → p.1.counter t ≤ (track t p.1).counter t
  numbered : ∀ t, Handles p.1 e t → Numbered p.1.exch t
  latest : ∀ r k, e.input = .snapshot r k → p.1.recon.state = .buffering → k + 1 = p.2.requests

/-! ### Effects that the watch does not look at -/

/-- The effect is no marker, no request and no merge. -/
def Inert : Effect → Prop
  | .streamGap _ _ _ => False
  | .requestSnapshot _ _ _ => False
  | .streamSnapshot _ _ _ _ => False
  | _ => True

theorem seeAll_of_inert {answers : Option ℕ} {s : Watch} : ∀ {fs : List Effect},
    (∀ f ∈ fs, Inert f) → s.seeAll answers fs = s
  | [], _ => rfl
  | f :: fs, h => by
      have hf : s.see answers f = s := by
        have hinert := h f List.mem_cons_self
        cases f <;> first | rfl | exact hinert.elim
      rw [Watch.seeAll, List.foldl_cons, hf]
      exact seeAll_of_inert fun g hg => h g (List.mem_cons_of_mem f hg)

theorem seeAll_append (answers : Option ℕ) (s : Watch) (fs gs : List Effect) :
    s.seeAll answers (fs ++ gs) = (s.seeAll answers fs).seeAll answers gs := List.foldl_append

theorem tolerates_append {answers : Option ℕ} {s : Watch} {fs gs : List Effect} :
    Tolerates answers s (fs ++ gs) ↔
      Tolerates answers s fs ∧ Tolerates answers (s.seeAll answers fs) gs := by
  induction fs generalizing s with
  | nil => simp [Tolerates, Watch.seeAll]
  | cons f fs ih =>
      simp only [List.cons_append, Tolerates, ih, Watch.seeAll, List.foldl_cons, and_assoc]

theorem tolerates_of_untouched {answers : Option ℕ} : ∀ {s : Watch} {fs : List Effect},
    (∀ f ∈ fs, touchesBook f = false) → Tolerates answers s fs
  | _, [], _ => trivial
  | s, f :: fs, h => by
      refine ⟨fun ht => ?_, tolerates_of_untouched fun g hg => h g (List.mem_cons_of_mem f hg)⟩
      rw [h f List.mem_cons_self] at ht
      cases ht

theorem tolerates_of_inert {answers : Option ℕ} {s : Watch} (hs : s.owed = none) :
    ∀ {fs : List Effect}, (∀ f ∈ fs, Inert f) → Tolerates answers s fs
  | [], _ => trivial
  | f :: fs, h => by
      have hf : s.seeAll answers [f] = s := seeAll_of_inert (by simpa using h f List.mem_cons_self)
      refine ⟨fun _ => hs, ?_⟩
      rw [show s.see answers f = s from hf]
      exact tolerates_of_inert hs fun g hg => h g (List.mem_cons_of_mem f hg)

/-! ### One step -/

/-- Outside of buffering, a tick that reveals no gap does nothing that the watch looks at. -/
theorem exec_body_inert {w : Worker} {e : Event} {t : Tick} (hi : e.input = .tick t)
    (ht : t.type ≠ .trade) (hs : w.recon.state ≠ .buffering) (hr : ¬ w.Reveals t) :
    ∀ f ∈ (exec (body e w) w).2, Inert f := by
  have hgap : w.gapEffects t e.now = [] := by
    rw [gapEffects, tickGap_eq, if_neg hr]
  have hpub : ∀ f ∈ w.publishEffects t, Inert f := by
    unfold publishEffects
    split <;> simp [Inert]
  rw [body, hi, exec_handleTick hs ht, hgap]
  intro f hf
  by_cases hu : t.type = .update
  · simp only [hu, if_true, List.nil_append, List.cons_append, List.mem_cons] at hf
    rcases hf with rfl | rfl | rfl | hf
    · trivial
    · trivial
    · trivial
    · exact hpub f hf
  · simp only [hu, if_false, List.nil_append, List.mem_cons, List.not_mem_nil, or_false] at hf
    rcases hf with rfl | rfl <;> trivial

/-- A handler that gets no order-book tick outside of buffering leaves the book alone. -/
theorem untouched_body {w : Worker} {e : Event} (hw : w.returned = false)
    (h : ∀ t, e.input = .tick t → t.type ≠ .trade → w.recon.state = .buffering) :
    ∀ f ∈ (exec (body e w) w).2, touchesBook f = false := by
  obtain ⟨e', hp, hi', hbody⟩ := exec_body_eq_step hw e
  rw [hbody]
  cases hi : e.input with
  | done =>
      rw [step_done hw hp (hi'.trans hi)]
      split <;> simp [touchesBook]
  | snapshot r k =>
      by_cases hs : w.recon.state = .buffering
      · cases hstale : w.recon.stale r.seq with
        | true =>
            rw [step_snapshot_stale hw hp (hi'.trans hi) hs hstale]
            simp [touchesBook]
        | false =>
            rw [step_snapshot_merged hw hp (hi'.trans hi) hs hstale]
            simp [touchesBook]
      · rw [step_snapshot_unexpected hw hp (hi'.trans hi) hs]
        simp
  | tick t =>
      by_cases ht : t.type = .trade
      · rw [step_trade hw hp (hi'.trans hi) ht]
        split <;> simp [touchesBook, ht]
      · rw [step_buffered hw hp (hi'.trans hi) ht (h t hi ht)]
        simp

/-- What a handler does when no gap is revealed: it leaves the book alone, or it runs outside of
buffering and does nothing that the watch looks at. -/
theorem exec_body_effects {w : Worker} {e : Event} (hw : w.returned = false)
    (h : ¬ Detects w e) :
    (∀ f ∈ (exec (body e w) w).2, touchesBook f = false) ∨
      (w.recon.state ≠ .buffering ∧ ∀ f ∈ (exec (body e w) w).2, Inert f) := by
  by_cases hex : ∃ t, e.input = .tick t ∧ t.type ≠ .trade ∧ w.recon.state ≠ .buffering
  · obtain ⟨t, hi, ht, hs⟩ := hex
    exact .inr ⟨hs, exec_body_inert hi ht hs fun hr => h ⟨t, ⟨hi, ht, hw, hs⟩, hr⟩⟩
  · left
    refine untouched_body hw fun t hi ht => ?_
    by_contra hs
    exact hex ⟨t, hi, ht, hs⟩

/-- What is known of a worker under watch: a marker that is not made good has been followed by a
request, and outside of buffering there is none. -/
def Watched (p : Worker × Watch) : Prop :=
  p.1.returned = false →
    (∀ n, p.2.owed = some n → n < p.2.requests) ∧
      (p.1.recon.state ≠ .buffering → p.2.owed = none)

/-- A part of a handler that reveals no gap is tolerated. -/
theorem tolerates_body {p : Worker × Watch} {e : Event} (hI : Watched p)
    (hw : p.1.returned = false) (h : ¬ Detects p.1 e) {fs : List Effect}
    (hfs : ∀ f ∈ fs, f ∈ (exec (body e p.1) p.1).2) : Tolerates (answersOf e) p.2 fs := by
  rcases exec_body_effects hw h with huntouched | ⟨hs, hinert⟩
  · exact tolerates_of_untouched fun f hf => huntouched f (hfs f hf)
  · exact tolerates_of_inert ((hI hw).2 hs) fun f hf => hinert f (hfs f hf)

/-- After a step without a panic, a marker that is not made good has been followed by a request and
the worker is buffering, unless the loop has ended. -/
theorem watched_of_calm {w : Worker} {s : Watch} {e : Event} (hw : w.returned = false)
    (hp : e.panicAt = none) (hI : Watched (w, s)) (h : Orderly (w, s) e) :
    (watchedStep (w, s) e).1.1.returned = true ∨
      ((∀ n, (watchedStep (w, s) e).1.2.owed = some n →
        n < (watchedStep (w, s) e).1.2.requests) ∧
      ((watchedStep (w, s) e).1.1.recon.state ≠ .buffering →
        (watchedStep (w, s) e).1.2.owed = none)) := by
  obtain ⟨howed, hlive⟩ := hI hw
  cases hi : e.input with
  | done =>
      left
      simp only [watchedStep, step_done hw hp hi]
  | snapshot r k =>
      right
      by_cases hs : w.recon.state = .buffering
      · cases hstale : w.recon.stale r.seq with
        | true =>
            simp only [watchedStep, step_snapshot_stale hw hp hi hs hstale, Watch.seeAll,
              List.foldl_cons, List.foldl_nil, Watch.see, Option.some.injEq]
            exact ⟨fun n hn => by omega, fun hs' => absurd hs hs'⟩
        | false =>
            -- The snapshot answers the latest request, so it was requested after the marker.
            have hk : k + 1 = s.requests := h.latest r k hi hs
            have hnone : (s.seeAll (answersOf e)
                [.streamSnapshot w.exch w.sym r.seq (unixMilli e.now)]).owed = none := by
              simp only [Watch.seeAll, List.foldl_cons, List.foldl_nil, Watch.see, answersOf, hi]
              cases ho : s.owed with
              | none => exact ho
              | some n =>
                  have hn : n < s.requests := howed n ho
                  simp only [if_pos (show n ≤ k by omega)]
            simp only [watchedStep, step_snapshot_merged hw hp hi hs hstale, hnone]
            exact ⟨fun n hn => (by cases hn), fun _ => trivial⟩
      · simp only [watchedStep, step_snapshot_unexpected hw hp hi hs]
        exact ⟨howed, hlive⟩
  | tick t =>
      right
      by_cases ht : t.type = .trade
      · have hinert : ∀ f ∈ (step w e).2, Inert f := by
          rw [step_trade hw hp hi ht]
          split <;> simp [Inert]
        have hsame : (step w e).1 = w := by rw [step_trade hw hp hi ht]
        simp only [watchedStep, seeAll_of_inert hinert, hsame]
        exact ⟨howed, hlive⟩
      · by_cases hs : w.recon.state = .buffering
        · simp only [watchedStep, step_buffered hw hp hi ht hs]
          exact ⟨howed, fun hs' => absurd (by simpa using hs) hs'⟩
        · have hinert : ∀ f ∈ (step w e).2, Inert f := by
            rw [step_eq_exec hw hp]
            exact exec_body_inert hi ht hs fun hr => h.contiguous ⟨t, ⟨hi, ht, hw, hs⟩, hr⟩
          have hsame : (step w e).1.recon = w.recon := by
            rw [step_eq_exec hw hp, body, hi, exec_handleTick hs ht]
            split <;> simp
          simp only [watchedStep, seeAll_of_inert hinert, hsame]
          exact ⟨howed, hlive⟩

/-! ### The book and the tracker -/

/-- Outside of buffering the book is not ahead of the tracker of its exchange. -/
def Behind (w : Worker) : Prop :=
  w.returned = false → w.recon.state ≠ .buffering →
    w.book.lastSeq ≤ if w.exch = "kucoin" then w.lastMsgSeqEnd else w.lastSeq

theorem counter_eq {w v : Worker} {t : Tick} (h : Numbered w.exch t) :
    v.counter t = if w.exch = "kucoin" then v.lastMsgSeqEnd else v.lastSeq := by
  unfold counter
  by_cases hk : w.exch = "kucoin"
  · rw [if_pos hk, if_pos (h.byMessage.mpr hk)]
  · rw [if_neg hk, if_neg fun hm => hk (h.byMessage.mp hm)]

/-- A tick's own number is not past the tracker after it. -/
theorem Numbered.seq_le {exch : String} {t : Tick} (h : Numbered exch t) (w : Worker) :
    t.seq ≤ (track t w).counter t := by
  unfold counter track
  by_cases hm : t.msgSeqEnd ≠ 0
  · rw [if_pos hm, if_pos hm]
    exact (h.within hm).2
  · rw [if_neg hm, if_neg hm]
    exact UInt64.le_refl _

theorem lastSeq_apply_le {ob : OrderBook} {d : Delta} {n : UInt64} (hob : ob.lastSeq ≤ n)
    (hd : d.seq ≤ n) : (ob.apply d).lastSeq ≤ n := by
  rw [OrderBook.apply_eq]
  split
  · exact hob
  · by_cases hp : d.price = ""
    · rwa [OrderBook.change_of_empty hp]
    · rwa [OrderBook.lastSeq_change hp]

/-- A tick that follows the tracker is past the book. -/
theorem lt_of_follows {p : Worker × Watch} {e : Event} {t : Tick} (hB : Behind p.1)
    (h : Orderly p e) (ht : Handles p.1 e t) (hf : Follows p.1 t) : p.1.book.lastSeq < t.seq := by
  have hnum := h.numbered t ht
  have hbook : p.1.book.lastSeq ≤ p.1.counter t := by
    rw [counter_eq hnum]
    exact hB ht.2.2.1 ht.2.2.2
  have hsteady := h.steady t ht
  refine UInt64.lt_of_le_of_lt hbook ?_
  unfold Follows at hf
  unfold counter track at hsteady
  unfold counter
  by_cases hm : t.msgSeqEnd ≠ 0
  · rw [if_pos hm] at hf ⊢
    obtain ⟨hpos, hnext⟩ := hf
    have hstart := (hnum.within hm).1
    grind
  · rw [if_neg hm] at hf ⊢
    rw [if_neg hm, if_neg hm] at hsteady
    grind

theorem behind_start (exch : String) (sym : Symbol) (pub : Bool) :
    Behind (start (new exch sym pub)).1 :=
  fun _ hs => absurd rfl hs

/-- The tracker does not fall behind the book in an orderly event. -/
theorem behind_step {p : Worker × Watch} {e : Event} (hB : Behind p.1) (h : Orderly p e) :
    Behind (step p.1 e).1 := by
  obtain ⟨w, s⟩ := p
  cases hw : w.returned with
  | true =>
      rw [step_returned hw e]
      exact hB
  | false =>
      cases hp : e.panicAt with
      | some k =>
          intro _ hs
          simp [step_panicked hw hp] at hs
      | none =>
          cases hi : e.input with
          | done =>
              intro hret
              simp [step_done hw hp hi] at hret
          | snapshot r k =>
              by_cases hs : w.recon.state = .buffering
              · cases hstale : w.recon.stale r.seq with
                | true =>
                    intro _ hs'
                    rw [step_snapshot_stale hw hp hi hs hstale] at hs'
                    exact absurd hs hs'
                | false =>
                    intro _ _
                    simp [step_snapshot_merged hw hp hi hs hstale, afterMerge,
                      SnapshotResult.book]
              · rw [step_snapshot_unexpected hw hp hi hs]
                exact hB
          | tick t =>
              by_cases ht : t.type = .trade
              · rw [step_trade hw hp hi ht]
                exact hB
              · by_cases hs : w.recon.state = .buffering
                · intro _ hs'
                  rw [step_buffered hw hp hi ht hs] at hs'
                  exact absurd (by simpa using hs) hs'
                · -- The tracker moves on, at least to the number of the tick.
                  have hhandles : Handles w e t := ⟨hi, ht, hw, hs⟩
                  have hnum := h.numbered t hhandles
                  have hold : w.book.lastSeq ≤ (track t w).counter t := by
                    refine UInt64.le_trans ?_ (h.steady t hhandles)
                    rw [counter_eq hnum]
                    exact hB hw hs
                  have hseq := hnum.seq_le w
                  intro _ _
                  rw [step_eq_exec hw hp, body, hi, exec_handleTick hs ht]
                  rw [counter_eq (v := track t w) hnum] at hold hseq
                  by_cases hu : t.type = .update
                  · simp only [hu, if_true, afterUpdate, track_exch]
                    exact lastSeq_apply_le hold hseq
                  · simp only [hu, if_false, track_exch, track_book]
                    exact hold

/-- A tick that follows the tracker is applied. -/
theorem applied_of_behind {p : Worker × Watch} {e : Event} (hB : Behind p.1) (h : Orderly p e) :
    ∀ t, Handles p.1 e t → t.type = .update → e.panicAt = none → Follows p.1 t →
      (step p.1 e).1.book = p.1.book.change t.delta := by
  intro t ht hu hp hf
  rw [step_update ht.2.2.1 hp ht.1 hu ht.2.2.2]
  exact OrderBook.apply_of_lt (lt_of_follows hB h ht hf)

/-! ### Whole runs -/

/-- **One step.** An orderly event is handled in a way that resynchronises, and keeps what is known
of the watch. -/
theorem watched_step {p : Worker × Watch} {e : Event} (hI : Watched p) (hB : Behind p.1)
    (h : Orderly p e) : Resyncs p e ∧ Watched (watchedStep p e).1 := by
  have happlied := applied_of_behind hB h
  obtain ⟨w, s⟩ := p
  cases hw : w.returned with
  | true =>
      have hstep := step_returned hw e
      refine ⟨⟨by rw [hstep]; trivial, fun n _ => Or.inr ?_, happlied⟩, fun hret => ?_⟩
      · simp only [watchedStep, hstep, hw]
      · simp [watchedStep, hstep, hw] at hret
  | false =>
      have hbody : ∀ {fs : List Effect}, (∀ f ∈ fs, f ∈ (exec (body e w) w).2) →
          Tolerates (answersOf e) s fs := tolerates_body hI hw h.contiguous
      cases hp : e.panicAt with
      | some k =>
          -- The handler's part is tolerated; the recovery ends with a marker and a request.
          have hstep := step_panicked hw hp
          have hpart : ∀ f ∈ (exec ((body e w).take k) w).2, f ∈ (exec (body e w) w).2 :=
            fun f hf => (exec_take_isPrefix (body e w) k w).subset hf
          have howed : ∀ n, (watchedStep (w, s) e).1.2.owed = some n →
              n < (watchedStep (w, s) e).1.2.requests := by
            intro n hn
            simp only [watchedStep, hstep, seeAll_append] at hn ⊢
            simp only [Watch.seeAll, List.foldl_cons, List.foldl_nil, Watch.see,
              Option.some.injEq] at hn ⊢
            omega
          refine ⟨⟨?_, fun n hn => Or.inl (howed n hn), happlied⟩, fun _ => ⟨howed, fun hs => ?_⟩⟩
          · rw [hstep, tolerates_append]
            exact ⟨hbody hpart, tolerates_of_untouched (by simp [touchesBook])⟩
          · simp [watchedStep, hstep] at hs
      | none =>
          have hheld : Tolerates (answersOf e) s (step w e).2 := by
            rw [step_eq_exec hw hp]
            exact hbody fun f hf => hf
          rcases watched_of_calm hw hp hI h with hret | hafter
          · refine ⟨⟨hheld, fun n _ => Or.inr hret, happlied⟩, fun hret' => ?_⟩
            rw [hret] at hret'
            cases hret'
          · exact ⟨⟨hheld, fun n hn => Or.inl (hafter.1 n hn), happlied⟩, fun _ => hafter⟩

/-- A tick that reveals a gap leaves a marker without a request, unless the worker panics. -/
theorem not_resyncs_of_detects {p : Worker × Watch} {e : Event} (hp : e.panicAt = none)
    (h : Detects p.1 e) : ¬ Resyncs p e := by
  obtain ⟨t, ⟨hi, ht, hw, hs⟩, hr⟩ := h
  intro hres
  have hstep : step p.1 e = exec (handleTick t e.now p.1) p.1 := by
    rw [step_eq_exec hw hp, body, hi]
  have hret : (step p.1 e).1.returned = false := by
    rw [hstep, exec_handleTick hs ht]
    split
    · rw [afterUpdate_returned, hw]
    · rw [track_returned, hw]
  have hgap : p.1.gapEffects t e.now =
      [.streamGap p.1.exch p.1.sym (p.1.gapBefore t e.now),
        .ilpGap p.1.exch p.1.sym (p.1.gapBefore t e.now)] := by
    rw [gapEffects, tickGap_eq, if_pos hr]
  have hwatch : (watchedStep p e).1.2 = { p.2 with owed := some p.2.requests } := by
    have hinert : ∀ f ∈ (if t.type = .update then [Effect.applyDelta t.delta] else []) ++
        .streamWrite t :: .ilpWrite t ::
          (if t.type = .update then p.1.publishEffects t else []), Inert f := by
      unfold publishEffects
      split <;> [split; skip] <;> simp [Inert]
    simp only [watchedStep, hstep, exec_handleTick hs ht, hgap, seeAll_append,
      seeAll_of_inert hinert]
    rfl
  rcases hres.requested p.2.requests (by rw [hwatch]) with hlt | hret'
  · rw [hwatch] at hlt
    exact absurd hlt (lt_irrefl _)
  · rw [show (watchedStep p e).1.1 = (step p.1 e).1 from rfl, hret] at hret'
    cases hret'

theorem watched_start (exch : String) (sym : Symbol) (pub : Bool) :
    Watched (watchedStart (new exch sym pub)) :=
  fun _ => ⟨fun n hn => (by cases hn), fun hs => absurd rfl hs⟩

/-- **Every run resynchronises as long as no tick reveals a gap** or takes the sequence back, and
every snapshot that arrives while buffering answers the latest request; and no run resynchronises in
which a tick reveals a gap to a worker that does not panic over it. -/
theorem along_resyncs (exch : String) (sym : Symbol) (pub : Bool) (es : List Event) :
    (Along watchedStep Orderly (watchedStart (new exch sym pub)) es →
      Along watchedStep Resyncs (watchedStart (new exch sym pub)) es) ∧
    (Along watchedStep Resyncs (watchedStart (new exch sym pub)) es →
      Along watchedStep (fun p e => e.panicAt = none → ¬ Detects p.1 e)
        (watchedStart (new exch sym pub)) es) := by
  refine ⟨fun h => ?_, fun h => ?_⟩
  · refine along_of_invariant (I := fun p => Watched p ∧ Behind p.1) (fun _ _ hI hok => ?_) es
      ⟨watched_start exch sym pub, behind_start exch sym pub⟩ h
    obtain ⟨hres, hwatched⟩ := watched_step hI.1 hI.2 hok
    exact ⟨hres, hwatched, behind_step hI.2 hok⟩
  · exact Along.imp (fun _ _ hres hp hd => not_resyncs_of_detects hp hd hres) es h

/-- **Deltas at or below the book's sequence are discarded for ever** by a live worker that does
not panic: no number of them brings it back to buffering. -/
theorem discards_restarted : ∀ {es : List Event} {w : Worker}, w.IsLive →
    (∀ e ∈ es, e.panicAt = none ∧ ((∃ r k, e.input = .snapshot r k) ∨
      ∃ t, e.input = .tick t ∧ (t.type = .trade ∨ t.type = .update ∧ t.seq ≤ w.book.lastSeq))) →
      (final step w es).book = w.book ∧ (final step w es).IsLive
  | [], _, h, _ => ⟨rfl, h⟩
  | e :: es, w, h, hes => by
      obtain ⟨hp, hin⟩ := hes e List.mem_cons_self
      have hstep : (step w e).1.book = w.book ∧ (step w e).1.IsLive := by
        rcases hin with ⟨r, k, hi⟩ | ⟨t, hi, ht | ⟨ht, hle⟩⟩
        · rw [step_snapshot_unexpected h.running hp hi h.not_buffering]
          exact ⟨rfl, h⟩
        · rw [step_trade h.running hp hi ht]
          exact ⟨rfl, h⟩
        · rw [step_update h.running hp hi ht h.not_buffering]
          exact ⟨OrderBook.apply_of_le hle, h.afterUpdate t⟩
      obtain ⟨hbook, hlive⟩ := hstep
      have hrest := discards_restarted hlive fun e' he' => by
        rw [hbook]
        exact hes e' (List.mem_cons_of_mem e he')
      exact ⟨by rw [final_cons, hrest.1, hbook], hrest.2⟩

/-! ### Runs -/

/-- An order-book tick of a Bybit worker. -/
def bidTick (seq : UInt64) (price : String) : Tick where
  exchange := "bybit"
  symbol := "BTC-USDT"
  seq := seq
  tsExchange := 0
  tsLocal := 0
  side := "bid"
  price := price
  size := "1"
  type := .update

/-- A change of a KuCoin message; only the first one has the number that the message begins with. -/
def messageTick (msgSeqStart seq msgSeqEnd : UInt64) : Tick :=
  { bidTick seq "100" with
    exchange := "kucoin", msgSeqStart := msgSeqStart, msgSeqEnd := msgSeqEnd }

/-- A snapshot, as the answer to the first request. -/
def snapshotAt (seq : UInt64) : Event := { input := .snapshot ⟨seq, ∅, ∅⟩ 0, now := 0 }

def tickEvent (t : Tick) : Event := { input := .tick t, now := 0 }

theorem orderly_snapshotAt {p : Worker × Watch} {seq : UInt64} (h : p.2.requests = 1) :
    Orderly p (snapshotAt seq) where
  contiguous := fun ⟨_, ⟨hi, _⟩, _⟩ => Input.noConfusion hi
  steady := fun _ ⟨hi, _⟩ => Input.noConfusion hi
  numbered := fun _ ⟨hi, _⟩ => Input.noConfusion hi
  latest := by
    intro r k hi _
    cases hi
    exact h.symm

theorem orderly_tickEvent {p : Worker × Watch} {t : Tick} (hgap : ¬ p.1.Reveals t)
    (hsteady : p.1.counter t ≤ (track t p.1).counter t) (hnum : Numbered p.1.exch t) :
    Orderly p (tickEvent t) where
  contiguous := by
    rintro ⟨t', ⟨hi, -⟩, hr⟩
    cases hi
    exact hgap hr
  steady := by
    rintro t' ⟨hi, -⟩
    cases hi
    exact hsteady
  numbered := by
    rintro t' ⟨hi, -⟩
    cases hi
    exact hnum
  latest := fun _ _ hi => Input.noConfusion hi

/-- The two changes of a message that follows the snapshot, and the next message. -/
theorem contiguous_run_resyncs :
    Along watchedStep Resyncs (watchedStart (new "kucoin" "BTC-USDT" false))
      [snapshotAt 6, tickEvent (messageTick 7 8 9), tickEvent (messageTick 0 9 9),
        tickEvent (messageTick 10 10 10)] := by
  refine (along_resyncs "kucoin" "BTC-USDT" false _).1 ⟨orderly_snapshotAt rfl,
    orderly_tickEvent ?_ ?_ ?_, orderly_tickEvent ?_ ?_ ?_, orderly_tickEvent ?_ ?_ ?_, trivial⟩
  all_goals first | exact ⟨by decide, by decide⟩ | decide

/-- A tick past the gap is applied although no snapshot has been asked for, and a tick of the
restarted sequence never is. -/
theorem gap_run_does_not_resync :
    (¬ Along watchedStep Resyncs (watchedStart (new "bybit" "BTC-USDT" false))
      [snapshotAt 6, tickEvent (bidTick 9 "100")]) ∧
    ((new "bybit" "BTC-USDT" false).run
      [snapshotAt 6, tickEvent (bidTick 9 "100"), tickEvent (bidTick 2 "101"),
        tickEvent (bidTick 3 "101")]).book.bids.lookup "101" = none := by
  refine ⟨fun h => ?_, by decide⟩
  have hheld := h.2.1.requested 1 (by decide)
  revert hheld
  decide

/-- Without a marker: a change that is not checked takes the tracker from 1000 back to 2, and the
message that follows it is discarded. -/
example : ¬ Along watchedStep Resyncs (watchedStart (new "kucoin" "BTC-USDT" false))
    [snapshotAt 1000, tickEvent (messageTick 0 2 2), tickEvent (messageTick 3 3 3)] := by
  intro h
  have happlied := h.2.2.1.applied (messageTick 3 3 3) ⟨rfl, by decide, rfl, by decide⟩ rfl rfl
    (by decide)
  revert happlied
  decide

end Worker

end MagnumOpus.Aggregator
