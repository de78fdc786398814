import MagnumOpus.Aggregator.KucoinBackoff
import Mathlib.Data.Finset.Basic

/-! # The connections of the KuCoin adapter

`kucoin.go`, `token.go` and `transport/conn.go`: `runLoop` opens one connection after another.  Each
has a reader and a heartbeat, which end before the next one is dialled, and the keepalive of its
transport; the renewal of the token runs beside all of them.  Whoever finds something wrong signals
through a channel with room for one token: the keepalive through that of its connection, the
heartbeat and the renewal through `reconnectTrigger`, which all connections share.

* **Attempts.** `runLoop` reconnects as in `KucoinBackoff` (`backoff_of_run`).
* **Dead readers.** A connection that is not read any more makes its heartbeat give up
  (`dead_reader_noticed`). -/

namespace MagnumOpus.Aggregator.KucoinConnection

open EventMachine
open KucoinBackoff (sleepBackoff)

/-- Why `runLoop` leaves a connection. -/
inductive Cause where
  | done
  | transport
  | trigger
deriving DecidableEq

/-- Where `runLoop` is. -/
inductive Phase where
  | select
  /-- The context of the connection is cancelled; its goroutines are not joined yet. -/
  | closing (cause : Cause)
  | reconnecting (attempt : BitVec 64)
  /-- The goroutines of the connection are not started yet. -/
  | dialled
  | returned
deriving DecidableEq

/-- Where `heartbeatLoop` is. -/
inductive Heart where
  | idle
  | writing (id : ℕ)
  | waiting (id : ℕ)
  | firing
  | ended
deriving DecidableEq

/-- Where `tokenRenewalLoop` is. -/
inductive Renewal where
  | idle
  | trying (attempt : ℕ)
  | firing
  | ended
deriving DecidableEq

structure State where
  /-- The context of the adapter is not done. -/
  live : Bool
  phase : Phase
  conn : ℕ
  /-- `readLoop` is running. -/
  reading : Bool
  heart : Heart
  /-- `keepalive` is running. -/
  keepalive : Bool
  reconnectCh : Bool
  reconnectTrigger : Bool
  renewal : Renewal
  pendingPings : Finset ℕ
  /-- The pings with a pong in their channel. -/
  pongs : Finset ℕ
  msgIDCounter : ℕ
deriving DecidableEq

inductive RunEvent where
  | done
  | transport
  | trigger
  | joined
  | tokenFailed
  | dialFailed
  | dialled
  | started
  /-- The loop of the attempts finds the context done. -/
  | stopped
deriving DecidableEq

inductive HeartEvent where
  | tick
  | wrote
  | writeFailed
  | pong
  | timeout
  | fire
  | done
deriving DecidableEq

inductive RenewalEvent where
  /-- The ticker fires and the token is close to its end. -/
  | due
  | failed
  | renewed
  | fire
  | done
deriving DecidableEq

inductive Event where
  /-- The context of the adapter is cancelled. -/
  | cancel
  | run (e : RunEvent)
  | heart (e : HeartEvent)
  | renewal (e : RenewalEvent)
  /-- `readLoop` dispatches a pong. -/
  | pong (id : ℕ)
  /-- `Read` returns an error. -/
  | readFailed
  /-- `keepalive` gets no pong. -/
  | keepaliveFailed
  /-- `keepalive` finds its context done. -/
  | keepaliveDone
  /-- A subscription takes the next identifier. -/
  | subscribe
deriving DecidableEq

inductive Effect where
  | backoff (e : KucoinBackoff.Effect)
  | left (conn : ℕ) (cause : Cause)
  /-- The heartbeat of the connection fires the trigger. -/
  | gaveUp (conn : ℕ)
  | renewalGaveUp
  | pong (id : ℕ)
  /-- The heartbeat takes the pong of its ping. -/
  | answered (id : ℕ)
deriving DecidableEq

/-- The context of the connection is done. -/
def State.connDone (s : State) : Bool :=
  !s.live || match s.phase with
    | .closing _ => true
    | _ => false

/-- `runLoop` leaves the connection. -/
def State.leave (s : State) (cause : Cause) : State × List Effect :=
  ({ s with phase := .closing cause }, [.left s.conn cause])

@[simp] theorem leave_phase (s : State) (cause : Cause) :
    (s.leave cause).1.phase = .closing cause := rfl

/-- An attempt to reconnect fails. -/
def State.retry (s : State) : State × List Effect :=
  match s.phase with
  | .reconnecting attempt =>
      ({ s with phase := .reconnecting (attempt + 1) }, [.backoff (.slept (sleepBackoff attempt))])
  | _ => (s, [])

def runStep (s : State) (e : RunEvent) : State × List Effect :=
  match e with
  | .done => if s.phase = .select ∧ s.live = false then s.leave .done else (s, [])
  | .transport =>
      if s.phase = .select ∧ s.reconnectCh = true then
        { s with reconnectCh := false }.leave .transport
      else (s, [])
  | .trigger =>
      if s.phase = .select ∧ s.reconnectTrigger = true then
        { s with reconnectTrigger := false }.leave .trigger
      else (s, [])
  | .joined =>
      match s.phase with
      | .closing cause =>
          if s.reading = true ∨ s.heart ≠ .ended then (s, [])
          -- `conn.Close` ends the keepalive
          else if cause = .done then ({ s with phase := .returned, keepalive := false }, [])
          else ({ s with phase := .reconnecting 0, keepalive := false }, [.backoff .needsSnapshot])
      | _ => (s, [])
  | .tokenFailed => s.retry
  | .dialFailed => s.retry
  | .dialled =>
      match s.phase with
      | .reconnecting _ =>
          ({ s with
              phase := .dialled
              conn := s.conn + 1
              keepalive := true
              reconnectCh := false }, [])
      | _ => (s, [])
  | .started =>
      (if s.phase = .dialled then { s with phase := .select, reading := true, heart := .idle }
        else s, [])
  | .stopped =>
      match s.phase with
      | .reconnecting _ => (if s.live then s else { s with phase := .returned }, [])
      | _ => (s, [])

def heartStep (s : State) (e : HeartEvent) : State × List Effect :=
  match s.heart, e with
  | .idle, .tick =>
      ({ s with
          heart := .writing (s.msgIDCounter + 1)
          msgIDCounter := s.msgIDCounter + 1
          pendingPings := insert (s.msgIDCounter + 1) s.pendingPings }, [])
  | .writing id, .wrote => ({ s with heart := .waiting id }, [])
  | .writing id, .writeFailed =>
      ({ s with
          heart := if s.connDone then .ended else .firing
          pendingPings := s.pendingPings.erase id }, [])
  -- the ping stays in the map
  | .waiting id, .pong =>
      if id ∈ s.pongs then ({ s with heart := .idle, pongs := s.pongs.erase id }, [.answered id])
      else (s, [])
  | .waiting id, .timeout =>
      ({ s with heart := .firing, pendingPings := s.pendingPings.erase id }, [])
  | .firing, .fire => ({ s with heart := .ended, reconnectTrigger := true }, [.gaveUp s.conn])
  | .idle, .done => (if s.connDone then { s with heart := .ended } else s, [])
  | .waiting id, .done =>
      (if s.connDone then { s with heart := .ended, pendingPings := s.pendingPings.erase id }
        else s, [])
  | _, _ => (s, [])

def renewalStep (renewalMaxAttempts : ℕ) (s : State) (e : RenewalEvent) : State × List Effect :=
  match s.renewal, e with
  | .idle, .due => ({ s with renewal := .trying 0 }, [])
  | .trying attempt, .failed =>
      if attempt + 1 < renewalMaxAttempts then
        ({ s with renewal := .trying (attempt + 1) }, [])
      else ({ s with renewal := .firing }, [])
  | .trying _, .renewed => ({ s with renewal := .idle }, [])
  | .firing, .fire =>
      ({ s with renewal := .ended, reconnectTrigger := true }, [.renewalGaveUp])
  | .idle, .done => (if s.live then s else { s with renewal := .ended }, [])
  | .trying _, .done => (if s.live then s else { s with renewal := .ended }, [])
  | _, _ => (s, [])

def step (renewalMaxAttempts : ℕ) : Step State Event Effect := fun s e =>
  match e with
  | .cancel => ({ s with live := false }, [])
  | .run e => runStep s e
  | .heart e => heartStep s e
  | .renewal e => renewalStep renewalMaxAttempts s e
  | .pong id =>
      if s.reading then
        (if id ∈ s.pendingPings then { s with pongs := insert id s.pongs } else s, [.pong id])
      else (s, [])
  | .readFailed => ({ s with reading := false }, [])
  | .keepaliveFailed =>
      (if s.keepalive then { s with keepalive := false, reconnectCh := true } else s, [])
  | .keepaliveDone => (if s.live then s else { s with keepalive := false }, [])
  | .subscribe => ({ s with msgIDCounter := s.msgIDCounter + 1 }, [])

/-- The adapter when `Connect` has dialled. -/
def start (renewalMaxAttempts : ℕ) : State where
  live := true
  phase := .dialled
  conn := 0
  reading := false
  heart := .ended
  keepalive := true
  reconnectCh := false
  reconnectTrigger := false
  renewal := if renewalMaxAttempts = 0 then .ended else .idle
  pendingPings := ∅
  pongs := ∅
  msgIDCounter := 0

variable {maxAttempts : ℕ} {s : State}

/-! ### Steps -/

/-- What `runLoop` can do. -/
inductive RunStepped (s : State) : State × List Effect → Prop
  | idle : RunStepped s (s, [])
  | done (hphase : s.phase = .select) (hlive : s.live = false) : RunStepped s (s.leave .done)
  | transport (hphase : s.phase = .select) :
      RunStepped s ({ s with reconnectCh := false }.leave .transport)
  | trigger (hphase : s.phase = .select) (htrigger : s.reconnectTrigger = true) :
      RunStepped s ({ s with reconnectTrigger := false }.leave .trigger)
  | joined (cause : Cause) (hphase : s.phase = .closing cause) (hheart : s.heart = .ended)
      (hcause : cause ≠ .done) :
      RunStepped s
        ({ s with phase := .reconnecting 0, keepalive := false }, [.backoff .needsSnapshot])
  | failed (attempt : BitVec 64) (hphase : s.phase = .reconnecting attempt) :
      RunStepped s
        ({ s with phase := .reconnecting (attempt + 1) },
          [.backoff (.slept (sleepBackoff attempt))])
  | dialled (attempt : BitVec 64) (hphase : s.phase = .reconnecting attempt) :
      RunStepped s
        ({ s with phase := .dialled, conn := s.conn + 1, keepalive := true, reconnectCh := false },
          [])
  | started (hphase : s.phase = .dialled) :
      RunStepped s ({ s with phase := .select, reading := true, heart := .idle }, [])
  | returned (k : Bool)
      (hphase : s.phase = .closing .done ∨ ∃ attempt, s.phase = .reconnecting attempt) :
      RunStepped s ({ s with phase := .returned, keepalive := k }, [])

theorem runStepped_retry (s : State) : RunStepped s s.retry := by
  unfold State.retry
  split
  · next attempt hphase => exact .failed attempt hphase
  · exact .idle

theorem runStepped (s : State) (e : RunEvent) : RunStepped s (runStep s e) := by
  cases e with
  | done =>
      dsimp only [runStep]
      split
      · next h => exact .done h.1 h.2
      · exact .idle
  | transport =>
      dsimp only [runStep]
      split
      · next h => exact .transport h.1
      · exact .idle
  | trigger =>
      dsimp only [runStep]
      split
      · next h => exact .trigger h.1 h.2
      · exact .idle
  | joined =>
      dsimp only [runStep]
      split
      · next cause hphase =>
          split
          · exact .idle
          · next hgoing =>
              split
              · next hcause => exact .returned false (.inl (hcause ▸ hphase))
              · next hcause => exact .joined cause hphase (not_not.mp (not_or.mp hgoing).2) hcause
      · exact .idle
  | tokenFailed => exact runStepped_retry s
  | dialFailed => exact runStepped_retry s
  | dialled =>
      dsimp only [runStep]
      split
      · next attempt hphase => exact .dialled attempt hphase
      · exact .idle
  | started =>
      dsimp only [runStep]
      split
      · next hphase => exact .started hphase
      · exact .idle
  | stopped =>
      dsimp only [runStep]
      split
      · next attempt hphase =>
          split
          · exact .idle
          · exact .returned s.keepalive (.inr ⟨attempt, hphase⟩)
      · exact .idle

/-- What the heartbeat can do. -/
inductive HeartStepped (s : State) : State × List Effect → Prop
  | idle : HeartStepped s (s, [])
  | tick (hheart : s.heart = .idle) :
      HeartStepped s
        ({ s with
            heart := .writing (s.msgIDCounter + 1)
            msgIDCounter := s.msgIDCounter + 1
            pendingPings := insert (s.msgIDCounter + 1) s.pendingPings }, [])
  | wrote (id : ℕ) (hheart : s.heart = .writing id) :
      HeartStepped s ({ s with heart := .waiting id }, [])
  | answered (id : ℕ) (hheart : s.heart = .waiting id) (hid : id ∈ s.pongs) :
      HeartStepped s ({ s with heart := .idle, pongs := s.pongs.erase id }, [.answered id])
  /-- A ping fails. -/
  | failed (id : ℕ) (hheart : s.heart = .writing id ∨ s.heart = .waiting id) :
      HeartStepped s
        ({ s with heart := .firing, pendingPings := s.pendingPings.erase id }, [])
  | fired (hheart : s.heart = .firing) :
      HeartStepped s ({ s with heart := .ended, reconnectTrigger := true }, [.gaveUp s.conn])
  | done (hheart : s.heart = .idle) (hdone : s.connDone = true) :
      HeartStepped s ({ s with heart := .ended }, [])
  | dropped (id : ℕ) (hheart : s.heart = .writing id ∨ s.heart = .waiting id)
      (hdone : s.connDone = true) :
      HeartStepped s ({ s with heart := .ended, pendingPings := s.pendingPings.erase id }, [])

theorem heartStepped (s : State) (e : HeartEvent) : HeartStepped s (heartStep s e) := by
  unfold heartStep
  split
  · next hheart => exact .tick hheart
  · next id hheart => exact .wrote id hheart
  · next id hheart =>
      split
      · next hdone => exact .dropped id (.inl hheart) hdone
      · exact .failed id (.inl hheart)
  · next id hheart =>
      split
      · next hid => exact .answered id hheart hid
      · exact .idle
  · next id hheart => exact .failed id (.inr hheart)
  · next hheart => exact .fired hheart
  · next hheart =>
      split
      · next hdone => exact .done hheart hdone
      · exact .idle
  · next id hheart =>
      split
      · next hdone => exact .dropped id (.inr hheart) hdone
      · exact .idle
  · exact .idle

/-- What the renewal of the token can do. -/
inductive RenewalStepped (s : State) : State × List Effect → Prop
  | idle : RenewalStepped s (s, [])
  | moved (renewal : Renewal) (hrenewal : s.renewal ≠ .ended) :
      RenewalStepped s ({ s with renewal := renewal }, [])
  | fired (hrenewal : s.renewal = .firing) :
      RenewalStepped s
        ({ s with renewal := .ended, reconnectTrigger := true }, [.renewalGaveUp])

theorem renewalStepped (maxAttempts : ℕ) (s : State) (e : RenewalEvent) :
    RenewalStepped s (renewalStep maxAttempts s e) := by
  have hmoved (renewal : Renewal) {r : Renewal} (hr : s.renewal = r) (hne : r ≠ .ended) :
      RenewalStepped s ({ s with renewal := renewal }, []) :=
    .moved renewal (hr ▸ hne)
  unfold renewalStep
  split
  · next hr => exact hmoved _ hr (by decide)
  · next hr =>
      split
      · exact hmoved _ hr (by simp)
      · exact hmoved _ hr (by simp)
  · next hr => exact hmoved _ hr (by simp)
  · next hr => exact .fired hr
  · next hr =>
      split
      · exact .idle
      · exact hmoved _ hr (by decide)
  · next hr =>
      split
      · exact .idle
      · exact hmoved _ hr (by simp)
  · exact .idle

/-! ### Attempts -/

/-- The phase of `KucoinBackoff`. -/
def Phase.backoff : Phase → KucoinBackoff.Phase
  | closing .done => .returned
  | reconnecting attempt => .reconnecting attempt
  | returned => .returned
  | _ => .connected

def Effect.backoffOf : Effect → Option KucoinBackoff.Effect
  | backoff e => some e
  | _ => none

def backoffs (seen : List Effect) : List KucoinBackoff.Effect := seen.filterMap Effect.backoffOf

/-- A run of `KucoinBackoff` inside of a step. -/
def Backs (s s' : State) (seen : List Effect) : Prop :=
  ∃ fs, s'.phase.backoff = final KucoinBackoff.step s.phase.backoff fs ∧
    backoffs seen = trace KucoinBackoff.step s.phase.backoff fs

theorem Backs.same {s' : State} {seen : List Effect} (hphase : s'.phase = s.phase)
    (hseen : backoffs seen = []) : Backs s s' seen :=
  ⟨[], congrArg Phase.backoff hphase, hseen⟩

theorem backs_runStep (s : State) (e : RunEvent) : Backs s (runStep s e).1 (runStep s e).2 := by
  have hstep := runStepped s e
  revert hstep
  generalize runStep s e = r
  intro hstep
  unfold Backs
  cases hstep with
  | idle => exact Backs.same rfl rfl
  | done hphase _ => exact ⟨[.cancelled], hphase ▸ ⟨rfl, rfl⟩⟩
  | transport hphase => exact ⟨[], hphase ▸ ⟨rfl, rfl⟩⟩
  | trigger hphase _ => exact ⟨[], hphase ▸ ⟨rfl, rfl⟩⟩
  | joined cause hphase _ hcause =>
      refine ⟨[.reconnect], ?_⟩
      rw [hphase]
      cases cause with
      | done => exact absurd rfl hcause
      | transport => exact ⟨rfl, rfl⟩
      | trigger => exact ⟨rfl, rfl⟩
  | failed attempt hphase => exact ⟨[.tokenFailed], hphase ▸ ⟨rfl, rfl⟩⟩
  | dialled attempt hphase => exact ⟨[.dialed], hphase ▸ ⟨rfl, rfl⟩⟩
  | started hphase => exact ⟨[], hphase ▸ ⟨rfl, rfl⟩⟩
  | returned k hphase =>
      rcases hphase with hphase | ⟨attempt, hphase⟩
      · exact ⟨[], hphase ▸ ⟨rfl, rfl⟩⟩
      · exact ⟨[.cancelled], hphase ▸ ⟨rfl, rfl⟩⟩

theorem backs_step (s : State) (e : Event) :
    Backs s (step maxAttempts s e).1 (step maxAttempts s e).2 := by
  cases e with
  | run e => exact backs_runStep s e
  | heart e =>
      have hstep := heartStepped s e
      dsimp only [step]
      revert hstep
      generalize heartStep s e = r
      intro hstep
      cases hstep <;> exact .same rfl rfl
  | renewal e =>
      have hstep := renewalStepped maxAttempts s e
      dsimp only [step]
      revert hstep
      generalize renewalStep maxAttempts s e = r
      intro hstep
      cases hstep <;> exact .same rfl rfl
  | pong id =>
      dsimp only [step]
      split
      · split <;> exact .same rfl rfl
      · exact .same rfl rfl
  | keepaliveFailed =>
      dsimp only [step]
      split <;> exact .same rfl rfl
  | keepaliveDone =>
      dsimp only [step]
      split <;> exact .same rfl rfl
  | _ => exact .same rfl rfl

/-- What `runLoop` does between the connections is a run of `KucoinBackoff`. -/
theorem backoff_of_run (maxAttempts : ℕ) (es : List Event) :
    ∃ fs, (final (step maxAttempts) (start maxAttempts) es).phase.backoff =
        final KucoinBackoff.step .connected fs ∧
      backoffs (trace (step maxAttempts) (start maxAttempts) es) =
        trace KucoinBackoff.step .connected fs := by
  refine seen_invariant
    (I := fun seen (s : State) => ∃ fs, s.phase.backoff = final KucoinBackoff.step .connected fs ∧
      backoffs seen = trace KucoinBackoff.step .connected fs)
    ⟨[], rfl, rfl⟩ (fun seen s e h => ?_) es
  obtain ⟨fs, hphase, hseen⟩ := h
  obtain ⟨gs, hphase', hseen'⟩ := backs_step s e
  refine ⟨fs ++ gs, ?_, ?_⟩
  · rw [final_append, ← hphase]
    exact hphase'
  · rw [trace_append, ← hphase, backoffs, List.filterMap_append]
    exact congrArg₂ _ hseen hseen'

/-! ### Dead readers -/

/-- There is no connection, or its goroutines are not started yet. -/
def State.Between (s : State) : Prop :=
  s.phase = .dialled ∨ ∃ attempt, s.phase = .reconnecting attempt

/-- While `runLoop` waits, a heartbeat that has ended has set the trigger. -/
structure Heard (s : State) : Prop where
  resting : s.Between → s.heart = .ended
  trigger : s.phase = .select → s.live = true → s.heart = .ended → s.reconnectTrigger = true
  pings : ∀ id ∈ s.pendingPings, id ≤ s.msgIDCounter
  pongs : ∀ id ∈ s.pongs, id ≤ s.msgIDCounter

theorem heard_start (maxAttempts : ℕ) : Heard (start maxAttempts) where
  resting _ := rfl
  trigger h := by cases h
  pings _ h := absurd h (Finset.notMem_empty _)
  pongs _ h := absurd h (Finset.notMem_empty _)

theorem not_connDone (hphase : s.phase = .select) (hlive : s.live = true) :
    s.connDone = false := by
  unfold State.connDone
  rw [hphase, hlive]
  rfl

theorem not_between {phase : Phase} (hphase : s.phase = phase) (hdialled : phase ≠ .dialled)
    (hreconnecting : ∀ attempt, phase ≠ .reconnecting attempt) : ¬ s.Between := by
  rintro (h | ⟨attempt, h⟩)
  · exact hdialled (hphase.symm.trans h)
  · exact hreconnecting attempt (hphase.symm.trans h)

theorem Heard.runStep (h : Heard s) (e : RunEvent) : Heard (runStep s e).1 := by
  have hstep := runStepped s e
  revert hstep
  generalize KucoinConnection.runStep s e = r
  intro hstep
  have hclosed {s' : State} {phase : Phase} (hphase : s'.phase = phase)
      (hselect : phase ≠ .select) (hdialled : phase ≠ .dialled)
      (hreconnecting : ∀ attempt, phase ≠ .reconnecting attempt)
      (hpings : s'.pendingPings = s.pendingPings) (hpongs : s'.pongs = s.pongs)
      (hid : s'.msgIDCounter = s.msgIDCounter) : Heard s' :=
    ⟨fun hb => absurd hb (not_between hphase hdialled hreconnecting),
      fun hs => absurd (hphase.symm.trans hs) hselect, by rw [hpings, hid]; exact h.pings,
      by rw [hpongs, hid]; exact h.pongs⟩
  cases hstep with
  | idle => exact h
  | started _ =>
      exact ⟨fun hb => absurd hb (not_between rfl (by simp) (by simp)),
        fun _ _ hheart => (by cases hheart), h.pings, h.pongs⟩
  | joined _ _ hheart _ =>
      exact ⟨fun _ => hheart, fun hphase => (by cases hphase), h.pings, h.pongs⟩
  | failed attempt hphase =>
      exact ⟨fun _ => h.resting (.inr ⟨attempt, hphase⟩), fun hphase' => (by cases hphase'),
        h.pings, h.pongs⟩
  | dialled attempt hphase =>
      exact ⟨fun _ => h.resting (.inr ⟨attempt, hphase⟩), fun hphase' => (by cases hphase'),
        h.pings, h.pongs⟩
  | _ => exact hclosed rfl (by simp) (by simp) (by simp) rfl rfl rfl

theorem Heard.not_between (h : Heard s) {heart : Heart} (hheart : s.heart = heart)
    (hne : heart ≠ .ended) : ¬ s.Between :=
  fun hb => hne (hheart.symm.trans (h.resting hb))

theorem Heard.heartStep (h : Heard s) (e : HeartEvent) : Heard (heartStep s e).1 := by
  have hstep := heartStepped s e
  revert hstep
  generalize KucoinConnection.heartStep s e = r
  intro hstep
  have hpings {id : ℕ} : ∀ id' ∈ s.pendingPings.erase id, id' ≤ s.msgIDCounter :=
    fun id' hid => h.pings id' (Finset.mem_of_mem_erase hid)
  have hopen (hdone : s.connDone = true) (hphase : s.phase = .select) (hlive : s.live = true) :
      s.reconnectTrigger = true := by
    rw [not_connDone hphase hlive] at hdone
    cases hdone
  have hrunning {id : ℕ} (hheart : s.heart = .writing id ∨ s.heart = .waiting id) :
      ¬ s.Between := by
    rcases hheart with hheart | hheart
    · exact h.not_between hheart (by simp)
    · exact h.not_between hheart (by simp)
  cases hstep with
  | idle => exact h
  | tick hheart =>
      refine ⟨fun hb => absurd hb (h.not_between hheart (by simp)),
        fun _ _ hheart' => (by cases hheart'), fun id hid => ?_, fun id hid => ?_⟩
      · rcases Finset.mem_insert.mp hid with rfl | hid
        · exact le_rfl
        · exact Nat.le_succ_of_le (h.pings id hid)
      · exact Nat.le_succ_of_le (h.pongs id hid)
  | wrote id hheart =>
      exact ⟨fun hb => absurd hb (hrunning (.inl hheart)), fun _ _ hheart' => (by cases hheart'),
        h.pings, h.pongs⟩
  | answered id hheart _ =>
      exact ⟨fun hb => absurd hb (hrunning (.inr hheart)), fun _ _ hheart' => (by cases hheart'),
        h.pings, fun id' hid => h.pongs id' (Finset.mem_of_mem_erase hid)⟩
  | failed id hheart =>
      exact ⟨fun hb => absurd hb (hrunning hheart), fun _ _ hheart' => (by cases hheart'), hpings,
        h.pongs⟩
  | fired _ => exact ⟨fun _ => rfl, fun _ _ _ => rfl, h.pings, h.pongs⟩
  | done _ hdone =>
      exact ⟨fun _ => rfl, fun hphase hlive _ => hopen hdone hphase hlive, h.pings, h.pongs⟩
  | dropped id _ hdone =>
      exact ⟨fun _ => rfl, fun hphase hlive _ => hopen hdone hphase hlive, hpings, h.pongs⟩

theorem Heard.renewalStep (h : Heard s) (e : RenewalEvent) :
    Heard (renewalStep maxAttempts s e).1 := by
  have hstep := renewalStepped maxAttempts s e
  revert hstep
  generalize KucoinConnection.renewalStep maxAttempts s e = r
  intro hstep
  cases hstep with
  | idle => exact h
  | moved renewal _ => exact ⟨h.resting, h.trigger, h.pings, h.pongs⟩
  | fired _ => exact ⟨h.resting, fun _ _ _ => rfl, h.pings, h.pongs⟩

theorem Heard.step (h : Heard s) (e : Event) : Heard (step maxAttempts s e).1 := by
  cases e with
  | cancel => exact ⟨h.resting, fun _ hlive => (by cases hlive), h.pings, h.pongs⟩
  | run e => exact h.runStep e
  | heart e => exact h.heartStep e
  | renewal e => exact h.renewalStep e
  | pong id =>
      dsimp only [KucoinConnection.step]
      split
      · split
        · next hid =>
            refine ⟨h.resting, h.trigger, h.pings, fun id' hid' => ?_⟩
            rcases Finset.mem_insert.mp hid' with rfl | hid'
            · exact h.pings id' hid
            · exact h.pongs id' hid'
        · exact h
      · exact h
  | readFailed => exact ⟨h.resting, h.trigger, h.pings, h.pongs⟩
  | keepaliveFailed =>
      dsimp only [KucoinConnection.step]
      split
      · exact ⟨h.resting, h.trigger, h.pings, h.pongs⟩
      · exact h
  | keepaliveDone =>
      dsimp only [KucoinConnection.step]
      split
      · exact h
      · exact ⟨h.resting, h.trigger, h.pings, h.pongs⟩
  | subscribe =>
      exact ⟨h.resting, h.trigger, fun id hid => Nat.le_succ_of_le (h.pings id hid),
        fun id hid => Nat.le_succ_of_le (h.pongs id hid)⟩

/-- A state the adapter can be in. -/
def Reachable (maxAttempts : ℕ) (s : State) : Prop :=
  ∃ es, s = final (step maxAttempts) (start maxAttempts) es

theorem Reachable.heard (h : Reachable maxAttempts s) : Heard s := by
  obtain ⟨es, rfl⟩ := h
  exact final_invariant (fun _ e hs => hs.step e) es (heard_start maxAttempts)

/-- `runLoop` waits on a connection that nobody reads. -/
structure Dead (s : State) : Prop where
  live : s.live = true
  phase : s.phase = .select
  reading : s.reading = false

/-- A step of neither `runLoop` nor the owner of the context. -/
def Event.isOther : Event → Bool
  | cancel => false
  | run _ => false
  | _ => true

/-- How often the heartbeat of a dead connection can still move. -/
def beatsLeft (s : State) : ℕ :=
  match s.heart with
  | .writing id => if id ∈ s.pongs then 6 else 3
  | .waiting id => if id ∈ s.pongs then 5 else 2
  | .idle => 4
  | .firing => 1
  | .ended => 0

/-- The moves of the heartbeat. -/
def beats (maxAttempts : ℕ) : State → List Event → ℕ
  | _, [] => 0
  | s, e :: es =>
      (if (step maxAttempts s e).1.heart = s.heart then 0 else 1) +
        beats maxAttempts (step maxAttempts s e).1 es

theorem beatsLeft_le (s : State) : beatsLeft s ≤ 6 := by
  unfold beatsLeft
  split <;> (try split) <;> omega

/-- The connection stays dead, and a move of the heartbeat is one less to come. -/
def WindsDown (s s' : State) : Prop :=
  Dead s' ∧ (s'.heart = s.heart ∧ beatsLeft s' = beatsLeft s ∨ beatsLeft s' < beatsLeft s)

theorem WindsDown.same {s' : State} (hdead : Dead s') (hheart : s'.heart = s.heart)
    (hpongs : s'.pongs = s.pongs) : WindsDown s s' :=
  ⟨hdead, .inl ⟨hheart, by unfold beatsLeft; rw [hheart, hpongs]⟩⟩

theorem windsDown_heartStep (h : Heard s) (hdead : Dead s) (e : HeartEvent) :
    WindsDown s (heartStep s e).1 := by
  have hdone := not_connDone hdead.phase hdead.live
  have hstep := heartStepped s e
  revert hstep
  generalize heartStep s e = r
  intro hstep
  have hstill {s' : State} (hlive : s'.live = s.live) (hphase : s'.phase = s.phase)
      (hreading : s'.reading = s.reading) : Dead s' :=
    ⟨hlive.trans hdead.live, hphase.trans hdead.phase, hreading.trans hdead.reading⟩
  cases hstep with
  | idle => exact .same hdead rfl rfl
  | tick hheart =>
      have hfresh : s.msgIDCounter + 1 ∉ s.pongs := fun hid =>
        absurd (h.pongs _ hid) (Nat.not_succ_le_self _)
      refine ⟨hstill rfl rfl rfl, .inr ?_⟩
      simp only [beatsLeft, hheart, if_neg hfresh]
      omega
  | wrote id hheart =>
      refine ⟨hstill rfl rfl rfl, .inr ?_⟩
      simp only [beatsLeft, hheart]
      split <;> omega
  | answered id hheart hid =>
      refine ⟨hstill rfl rfl rfl, .inr ?_⟩
      simp only [beatsLeft, hheart, if_pos hid]
      omega
  | failed id hheart =>
      refine ⟨hstill rfl rfl rfl, .inr ?_⟩
      rcases hheart with hheart | hheart <;> simp only [beatsLeft, hheart] <;> split <;> omega
  | fired hheart =>
      refine ⟨hstill rfl rfl rfl, .inr ?_⟩
      simp only [beatsLeft, hheart]
      omega
  | done _ hd =>
      rw [hdone] at hd
      cases hd
  | dropped id _ hd =>
      rw [hdone] at hd
      cases hd

theorem windsDown_step (h : Heard s) (hdead : Dead s) {e : Event} (he : e.isOther = true) :
    WindsDown s (step maxAttempts s e).1 := by
  cases e with
  | cancel => cases he
  | run e => cases he
  | heart e => exact windsDown_heartStep h hdead e
  | renewal e =>
      have hstep := renewalStepped maxAttempts s e
      dsimp only [step]
      revert hstep
      generalize renewalStep maxAttempts s e = r
      intro hstep
      cases hstep with
      | idle => exact .same hdead rfl rfl
      | moved renewal _ => exact .same ⟨hdead.live, hdead.phase, hdead.reading⟩ rfl rfl
      | fired _ => exact .same ⟨hdead.live, hdead.phase, hdead.reading⟩ rfl rfl
  | pong id =>
      dsimp only [step]
      rw [if_neg (by rw [hdead.reading]; exact Bool.false_ne_true)]
      exact .same hdead rfl rfl
  | readFailed => exact .same ⟨hdead.live, hdead.phase, rfl⟩ rfl rfl
  | keepaliveFailed =>
      dsimp only [step]
      split
      · exact .same ⟨hdead.live, hdead.phase, hdead.reading⟩ rfl rfl
      · exact .same hdead rfl rfl
  | keepaliveDone =>
      dsimp only [step]
      rw [if_pos hdead.live]
      exact .same hdead rfl rfl
  | subscribe => exact .same ⟨hdead.live, hdead.phase, hdead.reading⟩ rfl rfl

theorem windsDown_run : ∀ (fs : List Event) {s : State}, Heard s → Dead s →
    (∀ e ∈ fs, e.isOther = true) →
      Heard (final (step maxAttempts) s fs) ∧ Dead (final (step maxAttempts) s fs) ∧
        beats maxAttempts s fs + beatsLeft (final (step maxAttempts) s fs) ≤ beatsLeft s
  | [], s, h, hdead, _ => ⟨h, hdead, Nat.le_of_eq (Nat.zero_add _)⟩
  | e :: fs, s, h, hdead, hothers => by
      obtain ⟨hdead', hbeat⟩ := windsDown_step h hdead
        (hothers e List.mem_cons_self)
      obtain ⟨hheard, hend, hbeats⟩ := windsDown_run fs (h.step e) hdead'
        fun e' he' => hothers e' (List.mem_cons_of_mem e he')
      refine ⟨hheard, hend, ?_⟩
      rw [final_cons, beats]
      rcases hbeat with ⟨hsame, hleft⟩ | hlt
      · rw [if_pos hsame]
        omega
      · split <;> omega

/-- A heartbeat that has not ended can move. -/
theorem exists_beat (hheart : s.heart ≠ .ended) : ∃ e, (heartStep s e).1.heart ≠ s.heart := by
  cases hs : s.heart with
  | idle => exact ⟨.tick, by simp [heartStep, hs]⟩
  | writing id => exact ⟨.wrote, by simp [heartStep, hs]⟩
  | waiting id => exact ⟨.timeout, by simp [heartStep, hs]⟩
  | firing => exact ⟨.fire, by simp [heartStep, hs]⟩
  | ended => exact absurd hs hheart

/-- **Dead readers**: while `runLoop` waits on a connection that nobody reads, the heartbeat moves
six times at most, whatever the other goroutines do, and until the trigger is set it can move. -/
theorem dead_reader_noticed (h : Reachable maxAttempts s) (hdead : Dead s) (fs : List Event)
    (hothers : ∀ e ∈ fs, e.isOther = true) :
    beats maxAttempts s fs ≤ 6 ∧
      ((final (step maxAttempts) s fs).reconnectTrigger = true ∨
        ∃ e, (heartStep (final (step maxAttempts) s fs) e).1.heart ≠
          (final (step maxAttempts) s fs).heart) := by
  obtain ⟨hheard, hend, hbeats⟩ := windsDown_run fs h.heard hdead hothers
  refine ⟨(Nat.le_add_right _ _).trans (hbeats.trans (beatsLeft_le s)), ?_⟩
  by_cases hheart : (final (step maxAttempts) s fs).heart = .ended
  · exact .inl (hheard.trigger hend.phase hend.live hheart)
  · exact .inr (exists_beat hheart)

/-- The connection is lost between two pings. -/
def deadConnection : State := final (step 5) (start 5) [.run .started, .readFailed]

theorem dead_connection_noticed :
    beats 5 deadConnection [.heart .tick, .heart .wrote, .renewal .due, .heart .timeout] ≤ 6 ∧
      ((final (step 5) deadConnection
          [.heart .tick, .heart .wrote, .renewal .due, .heart .timeout]).reconnectTrigger = true ∨
        ∃ e, (heartStep (final (step 5) deadConnection
            [.heart .tick, .heart .wrote, .renewal .due, .heart .timeout]) e).1.heart ≠
          (final (step 5) deadConnection
            [.heart .tick, .heart .wrote, .renewal .due, .heart .timeout]).heart) :=
  dead_reader_noticed ⟨[.run .started, .readFailed], rfl⟩ ⟨rfl, rfl, rfl⟩
    [.heart .tick, .heart .wrote, .renewal .due, .heart .timeout] (by decide)

end MagnumOpus.Aggregator.KucoinConnection
