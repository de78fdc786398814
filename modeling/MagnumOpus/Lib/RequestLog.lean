import Mathlib.Data.List.Basic
import Mathlib.Data.Set.Basic
import Mathlib.Logic.Function.Basic

/-! # Requests and their acknowledgements

Requests go out on a connection, each under an identifier and each for a list of items; the other
side acknowledges an identifier, or does not.

* **The log.** `Log` is what has happened on the connection: what was sent, and which
  identifiers were acknowledged.  An item is `Answered` when a request for it was acknowledged, and
  `Outstanding` when it was sent and is not answered.
* **The sender.** `Sender` is a goroutine that works a list of requests off: it fetches the
  connection, enters a request in a table under a fresh identifier, writes it, and goes on.
  `Sender.queue` is what it has not written yet.
* **The desk.** `Desk` is the table of the requests that wait, with the senders that share it.  A
  `Protocol` says what a request leaves in the table.  `Inv` ties the table to what was asked, and
  `Resent.advance` says that what a sender has queued goes out. -/

namespace MagnumOpus.RequestLog

variable {θ ρ π τ : Type*}

/-- What was sent on a connection and what of it was acknowledged. -/
structure Log (τ : Type*) where
  sent : List (ℕ × List τ) := []
  acked : List ℕ := []
deriving DecidableEq

/-- The items whose request was acknowledged. -/
def Answered (l : Log τ) : Set τ :=
  {x | ∃ r ∈ l.sent, r.1 ∈ l.acked ∧ x ∈ r.2}

/-- The items that were sent and never acknowledged. -/
def Outstanding (l : Log τ) : Set τ :=
  {x | (∃ r ∈ l.sent, x ∈ r.2) ∧ x ∉ Answered l}

def send (l : Log τ) (id : ℕ) (items : List τ) : Log τ :=
  { l with sent := (id, items) :: l.sent }

/-- Only what was sent can be acknowledged. -/
def acknowledge (l : Log τ) (id : ℕ) : Log τ :=
  if l.sent.any (·.1 = id) then { l with acked := id :: l.acked } else l

@[simp] theorem sent_send (l : Log τ) (id : ℕ) (items : List τ) :
    (send l id items).sent = (id, items) :: l.sent := rfl

@[simp] theorem sent_acknowledge (l : Log τ) (id : ℕ) :
    (acknowledge l id).sent = l.sent := by
  unfold acknowledge
  split
  · rfl
  · rfl

/-- A goroutine that sends requests one after the other. -/
inductive Sender (ρ : Type*) where
  | idle
  /-- It is about to fetch the connection. -/
  | ready (todo : List ρ)
  | sending (conn : ℕ) (todo : List ρ)
  /-- The request is entered under its identifier and about to be written. -/
  | entered (conn id : ℕ) (req : ρ) (todo : List ρ)

namespace Sender

def isIdle : Sender ρ → Bool
  | idle => true
  | _ => false

/-- The requests that are not written yet. -/
def queue : Sender ρ → List ρ
  | idle => []
  | ready todo => todo
  | sending _ todo => todo
  | entered _ _ req todo => req :: todo

@[simp] theorem queue_idle : (idle : Sender ρ).queue = [] := rfl

@[simp] theorem queue_ready (todo : List ρ) : (ready todo).queue = todo := rfl

@[simp] theorem queue_sending (conn : ℕ) (todo : List ρ) : (sending conn todo).queue = todo := rfl

@[simp] theorem queue_entered (conn id : ℕ) (req : ρ) (todo : List ρ) :
    (entered conn id req todo).queue = req :: todo := rfl

/-- What is on its way: the request that is entered, and its identifier. -/
def pending : Sender ρ → Option (ℕ × ρ)
  | entered _ id req _ => some (id, req)
  | _ => none

@[simp] theorem pending_idle : (idle : Sender ρ).pending = none := rfl

@[simp] theorem pending_sending (conn : ℕ) (todo : List ρ) :
    (sending conn todo).pending = none := rfl

@[simp] theorem pending_entered (conn id : ℕ) (req : ρ) (todo : List ρ) :
    (entered conn id req todo).pending = some (id, req) := rfl

/-- The next step of the goroutine: `fresh` is the next identifier, `conn` the connection of the
moment, and `ok` tells whether a write succeeds.  A write that fails ends the work. -/
def next (fresh conn : ℕ) (ok : Bool) : Sender ρ → Sender ρ
  | idle => idle
  | ready todo => sending conn todo
  | sending _ [] => idle
  | sending c (req :: todo) => entered c fresh req todo
  | entered c _ _ todo => if ok then sending c todo else idle

theorem queue_next_subset (fresh conn : ℕ) (ok : Bool) (t : Sender ρ) :
    (t.next fresh conn ok).queue ⊆ t.queue := by
  cases t with
  | idle => exact List.Subset.refl _
  | ready todo => exact List.Subset.refl _
  | sending c todo =>
      cases todo with
      | nil => exact List.Subset.refl _
      | cons req todo => exact List.Subset.refl _
  | entered c id req todo =>
      cases ok with
      | false => exact List.nil_subset _
      | true => exact List.subset_cons_self _ _

theorem isIdle_of_mem_queue {t : Sender ρ} {req : ρ} (h : req ∈ t.queue) : t.isIdle = false := by
  cases t with
  | idle => cases h
  | ready todo => rfl
  | sending conn todo => rfl
  | entered conn id req todo => rfl

end Sender

/-! ### Senders that share a table -/

/-- What a request stands for in the table of those that wait, which entries stay when it is
entered, and the items it asks for. -/
structure Protocol (ρ π τ : Type*) where
  entry : ρ → π
  keeps : ρ → π → Bool
  items : ρ → List τ

structure Desk (θ ρ π τ : Type*) where
  /-- The requests that wait for their acknowledgement. -/
  pendingAcks : List (ℕ × π) := []
  /-- The connections are numbered. -/
  conn : ℕ := 0
  closed : Bool := false
  msgIDCounter : ℕ
  threads : θ → Sender ρ
  /-- What was sent and acknowledged on the connection. -/
  log : Log τ := {}

namespace Desk

variable [DecidableEq θ]

def setThread (s : Desk θ ρ π τ) (t : θ) (sender : Sender ρ) : Desk θ ρ π τ :=
  { s with threads := Function.update s.threads t sender }

/-- A write succeeds only on the connection of the moment while that is open. -/
def writes (s : Desk θ ρ π τ) (conn : ℕ) (ok : Bool) : Bool := ok && conn == s.conn && !s.closed

/-- The next step of the goroutine `t`. -/
def advance (k : Protocol ρ π τ) (s : Desk θ ρ π τ) (t : θ) (ok : Bool) : Desk θ ρ π τ :=
  match s.threads t with
  | .idle => s
  | .ready todo => s.setThread t (.sending s.conn todo)
  | .sending _ [] => s.setThread t .idle
  | .sending conn (req :: todo) =>
      let id := s.msgIDCounter + 1
      { s.setThread t (.entered conn id req todo) with
        msgIDCounter := id
        pendingAcks := (s.pendingAcks.filter fun q => k.keeps req q.2) ++ [(id, k.entry req)] }
  | .entered conn id req todo =>
      if s.writes conn ok then
        { s.setThread t (.sending conn todo) with log := send s.log id (k.items req) }
      else
        { s.setThread t .idle with pendingAcks := s.pendingAcks.filter (·.1 ≠ id) }

variable {k : Protocol ρ π τ} {P : ρ → Prop} {s s' : Desk θ ρ π τ}

theorem setThread_self (t : θ) (sender : Sender ρ) :
    (s.setThread t sender).threads t = sender := Function.update_self ..

theorem setThread_of_ne {t t' : θ} (h : t' ≠ t) (sender : Sender ρ) :
    (s.setThread t sender).threads t' = s.threads t' := Function.update_of_ne h ..

/-- A goroutine takes the steps of a sender, and the others stay where they are. -/
theorem threads_advance (t : θ) (ok : Bool) :
    ∃ ok', (advance k s t ok).threads t = (s.threads t).next (s.msgIDCounter + 1) s.conn ok' ∧
      ∀ t', t' ≠ t → (advance k s t ok).threads t' = s.threads t' := by
  unfold advance
  split
  · next h => exact ⟨ok, by rw [h]; rfl, fun _ _ => rfl⟩
  · next todo h =>
      exact ⟨ok, by rw [h, setThread_self]; rfl, fun t' ht' => setThread_of_ne ht' _⟩
  · next conn h =>
      exact ⟨ok, by rw [h, setThread_self]; rfl, fun t' ht' => setThread_of_ne ht' _⟩
  · next conn req todo h =>
      refine ⟨ok, ?_, fun t' ht' => setThread_of_ne ht' _⟩
      rw [h]
      exact setThread_self ..
  · next conn id req todo h =>
      refine ⟨s.writes conn ok, ?_, ?_⟩
      · rw [h]
        split
        · next hw => rw [hw]; exact setThread_self ..
        · next hw => rw [Bool.eq_false_iff.mpr hw]; exact setThread_self ..
      · intro t' ht'
        split
        · exact setThread_of_ne ht' _
        · exact setThread_of_ne ht' _

/-! ### The table agrees with what was asked -/

/-- The identifier is taken and belongs to the request, which meets `P`; when it waits, it waits
under the entry of the request. -/
structure Known (k : Protocol ρ π τ) (P : ρ → Prop) (s : Desk θ ρ π τ) (id : ℕ) (req : ρ) :
    Prop where
  taken : id ≤ s.msgIDCounter
  asked : P req
  waits : ∀ q ∈ s.pendingAcks, q.1 = id → q.2 = k.entry req

structure Inv (k : Protocol ρ π τ) (P : ρ → Prop) (s : Desk θ ρ π τ) : Prop where
  queued : ∀ t, ∀ req ∈ (s.threads t).queue, P req
  numbered : ∀ q ∈ s.pendingAcks, q.1 ≤ s.msgIDCounter
  entered : ∀ t p, (s.threads t).pending = some p → Known k P s p.1 p.2
  sent : ∀ r ∈ s.log.sent, ∃ req, r.2 = k.items req ∧ Known k P s r.1 req

/-- Identifiers only grow, and what waits waited before or is the newest identifier. -/
structure Moves (s s' : Desk θ ρ π τ) : Prop where
  grows : s.msgIDCounter ≤ s'.msgIDCounter
  waits : ∀ q ∈ s'.pendingAcks, q ∈ s.pendingAcks ∨
    s.msgIDCounter < q.1 ∧ q.1 = s'.msgIDCounter

omit [DecidableEq θ] in
theorem Known.moves {id : ℕ} {req : ρ} (h : Known k P s id req) (hm : Moves s s') :
    Known k P s' id req where
  taken := h.taken.trans hm.grows
  asked := h.asked
  waits q hq hid := by
    rcases hm.waits q hq with hq | ⟨hlt, -⟩
    · exact h.waits q hq hid
    · exact absurd h.taken (by omega)

omit [DecidableEq θ] in
/-- The invariant is kept by a step whose goroutines and log bring nothing unknown. -/
theorem Inv.moves (h : Inv k P s) (hm : Moves s s')
    (hqueue : ∀ t, ∀ req ∈ (s'.threads t).queue, req ∈ (s.threads t).queue ∨ P req)
    (hentered : ∀ t p, (s'.threads t).pending = some p → (s.threads t).pending = some p ∨
      Known k P s' p.1 p.2)
    (hsent : ∀ r ∈ s'.log.sent, r ∈ s.log.sent ∨
      ∃ req, r.2 = k.items req ∧ Known k P s' r.1 req) :
    Inv k P s' where
  queued t req hreq := (hqueue t req hreq).elim (h.queued t req) id
  numbered q hq := by
    rcases hm.waits q hq with hq | ⟨-, heq⟩
    · exact (h.numbered q hq).trans hm.grows
    · exact heq.le
  entered t p hp := (hentered t p hp).elim (fun hp => (h.entered t p hp).moves hm) id
  sent r hr := by
    rcases hsent r hr with hr | hr
    · obtain ⟨req, hreq, hknown⟩ := h.sent r hr
      exact ⟨req, hreq, hknown.moves hm⟩
    · exact hr

omit [DecidableEq θ] in
theorem moves_of_subset (hgrows : s.msgIDCounter ≤ s'.msgIDCounter)
    (hwaits : s'.pendingAcks ⊆ s.pendingAcks) : Moves s s' :=
  ⟨hgrows, fun _ hq => .inl (hwaits hq)⟩

/-- The goroutines are left alone, and the table and the log only get shorter. -/
structure Shrinks (s s' : Desk θ ρ π τ) : Prop where
  grows : s.msgIDCounter ≤ s'.msgIDCounter
  waits : s'.pendingAcks ⊆ s.pendingAcks
  threads : s'.threads = s.threads
  sent : s'.log.sent ⊆ s.log.sent

omit [DecidableEq θ] in
theorem Shrinks.refl (s : Desk θ ρ π τ) : Shrinks s s :=
  ⟨le_rfl, List.Subset.refl _, rfl, List.Subset.refl _⟩

omit [DecidableEq θ] in
theorem Inv.shrinks (h : Inv k P s) (hs : Shrinks s s') : Inv k P s' :=
  h.moves (moves_of_subset hs.grows hs.waits) (fun _ _ hreq => .inl (hs.threads ▸ hreq))
    (fun _ _ hp => .inl (hs.threads ▸ hp)) fun _ hr => .inl (hs.sent hr)

theorem moves_advance (t : θ) (ok : Bool) : Moves s (advance k s t ok) := by
  unfold advance
  split
  · exact moves_of_subset le_rfl (List.Subset.refl _)
  · exact moves_of_subset le_rfl (List.Subset.refl _)
  · exact moves_of_subset le_rfl (List.Subset.refl _)
  · refine ⟨Nat.le_succ _, fun q hq => ?_⟩
    rcases List.mem_append.mp hq with hq | hq
    · exact .inl (List.mem_of_mem_filter hq)
    · obtain rfl := List.mem_singleton.mp hq
      exact .inr ⟨Nat.lt_succ_self _, rfl⟩
  · split
    · exact moves_of_subset le_rfl (List.Subset.refl _)
    · exact moves_of_subset le_rfl (List.filter_subset_self _)

/-- What a goroutine enters was queued and is the only request of its identifier. -/
theorem known_entered (h : Inv k P s) {t : θ} {ok : Bool} {p : ℕ × ρ}
    (hp : ((advance k s t ok).threads t).pending = some p) :
    Known k P (advance k s t ok) p.1 p.2 := by
  unfold advance at hp ⊢
  split at hp
  · next hs => simp [hs] at hp
  · simp [setThread, Sender.pending] at hp
  · simp [setThread] at hp
  · next conn req todo hs =>
      obtain rfl : (s.msgIDCounter + 1, req) = p := by simpa [setThread] using hp
      refine ⟨le_rfl, h.queued t req (by rw [hs]; exact List.mem_cons_self), fun q hq hid => ?_⟩
      rcases List.mem_append.mp hq with hq | hq
      · have hle := h.numbered q (List.mem_of_mem_filter hq)
        exact absurd hle (by omega)
      · rw [List.mem_singleton.mp hq]
  · split at hp
    · simp [setThread] at hp
    · simp [setThread] at hp

/-- A goroutine writes what it has entered. -/
theorem log_advance (t : θ) (ok : Bool) :
    (advance k s t ok).log = s.log ∨ ∃ p, (s.threads t).pending = some p ∧
      (advance k s t ok).log = send s.log p.1 (k.items p.2) := by
  unfold advance
  split
  · exact .inl rfl
  · exact .inl rfl
  · exact .inl rfl
  · exact .inl rfl
  · next conn id req todo hs =>
      split
      · exact .inr ⟨(id, req), by rw [hs]; rfl, rfl⟩
      · exact .inl rfl

theorem sent_advance_subset (t : θ) (ok : Bool) :
    s.log.sent ⊆ (advance k s t ok).log.sent := by
  rcases log_advance (k := k) (s := s) t ok with hlog | ⟨p, -, hlog⟩
  · rw [hlog]
    exact List.Subset.refl _
  · rw [hlog]
    exact List.subset_cons_self _ _

theorem Inv.advance (h : Inv k P s) (t : θ) (ok : Bool) : Inv k P (advance k s t ok) := by
  have hm : Moves s (Desk.advance k s t ok) := moves_advance t ok
  obtain ⟨ok', hself, hother⟩ := threads_advance (k := k) (s := s) t ok
  refine h.moves hm ?_ ?_ ?_
  · intro t' req hreq
    by_cases ht : t' = t
    · subst ht
      rw [hself] at hreq
      exact .inl (Sender.queue_next_subset _ _ _ _ hreq)
    · rw [hother t' ht] at hreq
      exact .inl hreq
  · intro t' p hp
    by_cases ht : t' = t
    · subst ht
      exact .inr (known_entered h hp)
    · rw [hother t' ht] at hp
      exact .inl hp
  · intro r hr
    rcases log_advance (k := k) (s := s) t ok with hlog | ⟨p, hp, hlog⟩
    · rw [hlog] at hr
      exact .inl hr
    · rw [hlog, sent_send] at hr
      rcases List.mem_cons.mp hr with rfl | hr
      · exact .inr ⟨p.2, rfl, (h.entered t p hp).moves hm⟩
      · exact .inl hr

/-- A goroutine that starts to send has entered nothing yet. -/
theorem Inv.setThread (h : Inv k P s) (t : θ) (sender : Sender ρ)
    (hqueue : ∀ req ∈ sender.queue, P req) (hpending : sender.pending = none) :
    Inv k P (s.setThread t sender) := by
  refine h.moves (moves_of_subset le_rfl (List.Subset.refl _)) ?_ ?_ fun r hr => .inl hr
  · intro t' req hreq
    by_cases ht : t' = t
    · subst ht
      rw [setThread_self] at hreq
      exact .inr (hqueue req hreq)
    · rw [setThread_of_ne ht] at hreq
      exact .inl hreq
  · intro t' p hp
    by_cases ht : t' = t
    · subst ht
      rw [setThread_self, hpending] at hp
      cases hp
    · rw [setThread_of_ne ht] at hp
      exact .inl hp

/-! ### What is queued is sent -/

/-- The request is still queued by `t`, which has entered nothing under one of the first `n`
identifiers, or its items were sent under a later one. -/
def Resent (k : Protocol ρ π τ) (t : θ) (n : ℕ) (req : ρ) (s : Desk θ ρ π τ) : Prop :=
  (req ∈ (s.threads t).queue ∧ n ≤ s.msgIDCounter ∧
      ∀ p, (s.threads t).pending = some p → n < p.1) ∨
    ∃ r ∈ s.log.sent, n < r.1 ∧ r.2 = k.items req

/-- What the goroutine writes arrives. -/
def Arrives (s : Desk θ ρ π τ) (t : θ) (ok : Bool) : Prop :=
  ∀ conn id req todo, s.threads t = .entered conn id req todo → s.writes conn ok

omit [DecidableEq θ] in
/-- A step that does not touch the goroutine keeps what it has queued, and what it has sent. -/
theorem Resent.frame {t : θ} {n : ℕ} {req : ρ} (h : Resent k t n req s)
    (hsent : s.log.sent ⊆ s'.log.sent)
    (hframe : (s.threads t).isIdle = false →
      s'.threads t = s.threads t ∧ s.msgIDCounter ≤ s'.msgIDCounter) :
    Resent k t n req s' := by
  rcases h with ⟨hqueue, hle, hfresh⟩ | ⟨r, hr, hnew, hx⟩
  · obtain ⟨hthread, hgrows⟩ := hframe (Sender.isIdle_of_mem_queue hqueue)
    exact .inl ⟨by rwa [hthread], hle.trans hgrows, by rwa [hthread]⟩
  · exact .inr ⟨r, hsent hr, hnew, hx⟩

theorem Resent.advance {t : θ} {n : ℕ} {req : ρ} {ok : Bool} (h : Resent k t n req s)
    (harrives : Arrives s t ok) : Resent k t n req (advance k s t ok) := by
  rcases h with ⟨hqueue, hle, hfresh⟩ | ⟨r, hr, hnew, hx⟩
  · unfold Desk.advance
    split
    · next hs => exact .inl ⟨hqueue, hle, hfresh⟩
    · next todo hs =>
        rw [hs] at hqueue
        exact .inl ⟨by simpa [Desk.setThread] using hqueue, hle,
          by simp [Desk.setThread, Sender.pending]⟩
    · next conn hs =>
        rw [hs] at hqueue
        cases hqueue
    · next conn req' todo hs =>
        rw [hs] at hqueue
        refine .inl ⟨by simpa [Desk.setThread] using hqueue, hle.trans (Nat.le_succ _), ?_⟩
        intro p hp
        obtain rfl : (s.msgIDCounter + 1, req') = p := by simpa [Desk.setThread] using hp
        exact Nat.lt_succ_of_le hle
    · next conn id req' todo hs =>
        rw [if_pos (harrives conn id req' todo hs)]
        have hnew : n < id := hfresh (id, req') (by rw [hs]; rfl)
        rw [hs, Sender.queue_entered] at hqueue
        rcases List.mem_cons.mp hqueue with rfl | hqueue
        · exact .inr ⟨(id, k.items req), List.mem_cons_self, hnew, rfl⟩
        · exact .inl ⟨by simpa [Desk.setThread] using hqueue, hle, by simp [Desk.setThread]⟩
  · exact .inr ⟨r, sent_advance_subset t ok hr, hnew, hx⟩

/-- Another goroutine takes a step. -/
theorem Resent.advance_of_ne {t t' : θ} {n : ℕ} {req : ρ} (h : Resent k t n req s) (ht : t' ≠ t)
    (ok : Bool) : Resent k t n req (Desk.advance k s t' ok) := by
  obtain ⟨-, -, hother⟩ := threads_advance (k := k) (s := s) t' ok
  exact h.frame (sent_advance_subset t' ok) fun _ =>
    ⟨hother t (Ne.symm ht), (moves_advance t' ok).grows⟩

/-- An idle goroutine starts to send: it is another one, or everything was sent. -/
theorem Resent.setThread {t t' : θ} {n : ℕ} {req : ρ} (h : Resent k t n req s)
    (hidle : (s.threads t').isIdle) (sender : Sender ρ) :
    Resent k t n req (s.setThread t' sender) := by
  refine h.frame (List.Subset.refl _) fun hbusy => ⟨?_, le_rfl⟩
  apply setThread_of_ne
  rintro rfl
  exact absurd (hidle.symm.trans hbusy) Bool.true_eq_false.mp

omit [DecidableEq θ] in
/-- When the goroutine is done, it was sent. -/
theorem Resent.sent {t : θ} {n : ℕ} {req : ρ} (h : Resent k t n req s)
    (hdone : (s.threads t).isIdle) : ∃ r ∈ s.log.sent, n < r.1 ∧ r.2 = k.items req := by
  rcases h with ⟨hqueue, -, -⟩ | h
  · rw [Sender.isIdle_of_mem_queue hqueue] at hdone
    exact absurd hdone Bool.false_ne_true
  · exact h

end Desk

end MagnumOpus.RequestLog
