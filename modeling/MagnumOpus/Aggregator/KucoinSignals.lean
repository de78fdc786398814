import MagnumOpus.Aggregator.KucoinConnection
import Mathlib.Data.Finset.Card

/-! # What the KuCoin adapter makes of its signals

`reconnectTrigger` outlives the connections, and the map of the pings does too.

* **Signals.** A signal makes `runLoop` leave one connection, and it may not be the one that it is
  about (`healthy_left_le`).
* **Pings.** A pong counts for the ping it answers, and the answered pings stay in the map
  (`pendingPings_of_run`). -/

namespace MagnumOpus.Aggregator.KucoinConnection

open EventMachine

variable {maxAttempts : ℕ} {s : State} {seen new : List Effect}

/-- What the adapter does in a run. -/
def observed (maxAttempts : ℕ) (es : List Event) : List Effect :=
  trace (step maxAttempts) (start maxAttempts) es

/-! ### Signals -/

/-- The connection that is left on the trigger. -/
def Effect.leftOn : Effect → Option ℕ
  | left conn .trigger => some conn
  | _ => none

/-- The connection whose heartbeat gives up. -/
def Effect.gaveUpOn : Effect → Option ℕ
  | gaveUp conn => some conn
  | _ => none

def leftOnTrigger (seen : List Effect) : List ℕ := seen.filterMap Effect.leftOn

def gaveUp (seen : List Effect) : List ℕ := seen.filterMap Effect.gaveUpOn

/-- A connection that can be left still. -/
def State.Open (s : State) : Prop := s.phase = .select ∨ s.phase = .dialled

/-- The heartbeat of the connection has been started, and has ended. -/
def State.Silent (s : State) : Prop := s.heart = .ended ∧ s.phase ≠ .dialled

/-- The connections left on the trigger, those whose heartbeat gave up, and how often the renewal
gave up: every connection left on the trigger has used up a signal. -/
structure Signals (left gave : List ℕ) (renewals : ℕ) (s : State) : Prop where
  left_le : ∀ n ∈ left, n ≤ s.conn
  left_closed : s.conn ∈ left → ¬ s.Open
  left_once : left.Nodup
  gave_le : ∀ n ∈ gave, n ≤ s.conn
  gave_silent : s.conn ∈ gave → s.Silent
  gave_once : gave.Nodup
  renewals_le : renewals ≤ if s.renewal = .ended then 1 else 0
  balance : left.length + (if s.reconnectTrigger then 1 else 0) ≤ gave.length + renewals

variable {left gave : List ℕ} {renewals : ℕ}

theorem signals_start (maxAttempts : ℕ) : Signals [] [] 0 (start maxAttempts) where
  left_le _ h := absurd h List.not_mem_nil
  left_closed h := absurd h List.not_mem_nil
  left_once := List.nodup_nil
  gave_le _ h := absurd h List.not_mem_nil
  gave_silent h := absurd h List.not_mem_nil
  gave_once := List.nodup_nil
  renewals_le := Nat.zero_le _
  balance := Nat.le_refl 0

theorem mem_concat_le {n : ℕ} {ns : List ℕ} (h : ∀ k ∈ ns, k ≤ n) : ∀ k ∈ ns ++ [n], k ≤ n :=
  List.forall_mem_append.mpr ⟨h, fun _ hk => (List.mem_singleton.mp hk).le⟩

theorem nodup_concat {n : ℕ} {ns : List ℕ} (h : ns.Nodup) (hn : n ∉ ns) : (ns ++ [n]).Nodup :=
  List.nodup_append'.mpr ⟨h, List.nodup_singleton n, List.disjoint_singleton.mpr hn⟩

/-- A step without a signal. -/
theorem Signals.same {s' : State} (h : Signals left gave renewals s) (hconn : s'.conn = s.conn)
    (hopen : s'.Open → s.Open) (hsilent : s.Silent → s'.Silent)
    (hrenewal : s.renewal = .ended → s'.renewal = .ended)
    (htrigger : s'.reconnectTrigger = s.reconnectTrigger) : Signals left gave renewals s' where
  left_le := hconn ▸ h.left_le
  left_closed hmem ho := h.left_closed (hconn ▸ hmem) (hopen ho)
  left_once := h.left_once
  gave_le := hconn ▸ h.gave_le
  gave_silent hmem := hsilent (h.gave_silent (hconn ▸ hmem))
  gave_once := h.gave_once
  renewals_le := by
    have hren := h.renewals_le
    split at hren
    · next hended =>
        rw [if_pos (hrenewal hended)]
        exact hren
    · exact hren.trans (Nat.zero_le _)
  balance := htrigger ▸ h.balance

theorem Signals.leave (h : Signals left gave renewals s) (hphase : s.phase = .select)
    (htrigger : s.reconnectTrigger = true) :
    Signals (left ++ [s.conn]) gave renewals ({ s with reconnectTrigger := false }.leave .trigger).1
    where
  left_le := mem_concat_le h.left_le
  left_closed _ ho := ho.elim (fun hselect => by cases hselect) (fun hdialled => by cases hdialled)
  left_once := nodup_concat h.left_once fun hmem => h.left_closed hmem (.inl hphase)
  gave_le := h.gave_le
  gave_silent hmem := ⟨(h.gave_silent hmem).1, by simp⟩
  gave_once := h.gave_once
  renewals_le := h.renewals_le
  balance := by
    have hbalance := h.balance
    rw [htrigger, if_pos rfl] at hbalance
    rw [List.length_append]
    exact hbalance

theorem Signals.dialled (h : Signals left gave renewals s) :
    Signals left gave renewals
      { s with phase := .dialled, conn := s.conn + 1, keepalive := true, reconnectCh := false }
    where
  left_le n hn := Nat.le_succ_of_le (h.left_le n hn)
  left_closed hmem := absurd (h.left_le _ hmem) (Nat.not_succ_le_self _)
  left_once := h.left_once
  gave_le n hn := Nat.le_succ_of_le (h.gave_le n hn)
  gave_silent hmem := absurd (h.gave_le _ hmem) (Nat.not_succ_le_self _)
  gave_once := h.gave_once
  renewals_le := h.renewals_le
  balance := h.balance

theorem not_silent {heart : Heart} (hheart : s.heart = heart) (hne : heart ≠ .ended) :
    ¬ s.Silent :=
  fun hs => hne (hheart.symm.trans hs.1)

theorem Signals.fired (h : Signals left gave renewals s) (hheard : Heard s)
    (hheart : s.heart = .firing) :
    Signals left (gave ++ [s.conn]) renewals { s with heart := .ended, reconnectTrigger := true }
    where
  left_le := h.left_le
  left_closed := h.left_closed
  left_once := h.left_once
  gave_le := mem_concat_le h.gave_le
  gave_silent _ := ⟨rfl, fun hphase => hheard.not_between hheart (by simp) (.inl hphase)⟩
  gave_once := nodup_concat h.gave_once fun hmem =>
    not_silent hheart (by simp) (h.gave_silent hmem)
  renewals_le := h.renewals_le
  balance := by
    have hbalance := h.balance
    rw [List.length_append, List.length_singleton, if_pos rfl]
    omega

theorem Signals.renewalFired (h : Signals left gave renewals s) (hrenewal : s.renewal = .firing) :
    Signals left gave (renewals + 1) { s with renewal := .ended, reconnectTrigger := true } where
  left_le := h.left_le
  left_closed := h.left_closed
  left_once := h.left_once
  gave_le := h.gave_le
  gave_silent := h.gave_silent
  gave_once := h.gave_once
  renewals_le := by
    have hren := h.renewals_le
    rw [hrenewal] at hren
    exact Nat.succ_le_succ hren
  balance := by
    have hbalance := h.balance
    rw [if_pos rfl]
    omega

/-- The signals after more effects. -/
def SignalsAfter (left gave : List ℕ) (renewals : ℕ) (r : State × List Effect) : Prop :=
  Signals (left ++ leftOnTrigger r.2) (gave ++ gaveUp r.2)
    (renewals + r.2.count .renewalGaveUp) r.1

theorem Signals.after {left' gave' : List ℕ} {renewals' : ℕ} {r : State × List Effect}
    (h : Signals left' gave' renewals' r.1) (hleft : left ++ leftOnTrigger r.2 = left')
    (hgave : gave ++ gaveUp r.2 = gave')
    (hcount : renewals + r.2.count .renewalGaveUp = renewals') :
    SignalsAfter left gave renewals r := by
  subst hleft hgave hcount
  exact h

/-- Effects that are not signals. -/
theorem Signals.quiet {r : State × List Effect} (h : Signals left gave renewals r.1)
    (hleft : leftOnTrigger r.2 = []) (hgave : gaveUp r.2 = [])
    (hcount : r.2.count .renewalGaveUp = 0) : SignalsAfter left gave renewals r :=
  h.after (by rw [hleft, List.append_nil]) (by rw [hgave, List.append_nil])
    (by rw [hcount, Nat.add_zero])

theorem Signals.runStep (h : Signals left gave renewals s) (e : RunEvent) :
    SignalsAfter left gave renewals (runStep s e) := by
  have hstep := runStepped s e
  revert hstep
  generalize KucoinConnection.runStep s e = r
  intro hstep
  have hclosed {s' : State} (hselect : s'.phase ≠ .select) (hdialled : s'.phase ≠ .dialled)
      (hconn : s'.conn = s.conn) (hheart : s'.heart = s.heart) (hrenewal : s'.renewal = s.renewal)
      (htrigger : s'.reconnectTrigger = s.reconnectTrigger) : Signals left gave renewals s' :=
    h.same hconn (fun ho => (ho.elim hselect hdialled).elim)
      (fun hs => ⟨hheart.trans hs.1, hdialled⟩) (fun hr => hrenewal.trans hr) htrigger
  cases hstep with
  | idle => exact h.quiet rfl rfl rfl
  | trigger hphase htrigger => exact (h.leave hphase htrigger).after rfl (List.append_nil _) rfl
  | dialled _ _ => exact Signals.quiet h.dialled rfl rfl rfl
  | started hphase =>
      exact Signals.quiet (h.same rfl (fun _ => .inr hphase) (fun hs => absurd hphase hs.2) id rfl)
        rfl rfl rfl
  | _ => exact Signals.quiet (hclosed (by simp) (by simp) rfl rfl rfl rfl) rfl rfl rfl

theorem Signals.heartStep (h : Signals left gave renewals s) (hheard : Heard s) (e : HeartEvent) :
    SignalsAfter left gave renewals (heartStep s e) := by
  have hstep := heartStepped s e
  revert hstep
  generalize KucoinConnection.heartStep s e = r
  intro hstep
  have hrunning {s' : State} (hheart : ¬ s.Silent) (hphase : s'.phase = s.phase)
      (hconn : s'.conn = s.conn) (hrenewal : s'.renewal = s.renewal)
      (htrigger : s'.reconnectTrigger = s.reconnectTrigger) : Signals left gave renewals s' :=
    h.same hconn (fun ho => by unfold State.Open at ho ⊢; rwa [hphase] at ho)
      (fun hs => absurd hs hheart) (fun hr => hrenewal.trans hr) htrigger
  have hflight {id : ℕ} (hheart : s.heart = .writing id ∨ s.heart = .waiting id) : ¬ s.Silent := by
    rcases hheart with hheart | hheart
    · exact not_silent hheart (by simp)
    · exact not_silent hheart (by simp)
  cases hstep with
  | idle => exact h.quiet rfl rfl rfl
  | tick hheart =>
      exact Signals.quiet (hrunning (not_silent hheart (by simp)) rfl rfl rfl rfl) rfl rfl rfl
  | wrote id hheart =>
      exact Signals.quiet (hrunning (hflight (.inl hheart)) rfl rfl rfl rfl) rfl rfl rfl
  | answered id hheart _ =>
      exact Signals.quiet (hrunning (hflight (.inr hheart)) rfl rfl rfl rfl) rfl rfl rfl
  | failed id hheart => exact Signals.quiet (hrunning (hflight hheart) rfl rfl rfl rfl) rfl rfl rfl
  | fired hheart => exact (h.fired hheard hheart).after (List.append_nil _) rfl rfl
  | done hheart _ =>
      exact Signals.quiet (hrunning (not_silent hheart (by simp)) rfl rfl rfl rfl) rfl rfl rfl
  | dropped id hheart _ =>
      exact Signals.quiet (hrunning (hflight hheart) rfl rfl rfl rfl) rfl rfl rfl

theorem Signals.renewalStep (h : Signals left gave renewals s) (e : RenewalEvent) :
    SignalsAfter left gave renewals (renewalStep maxAttempts s e) := by
  have hstep := renewalStepped maxAttempts s e
  revert hstep
  generalize KucoinConnection.renewalStep maxAttempts s e = r
  intro hstep
  cases hstep with
  | idle => exact h.quiet rfl rfl rfl
  | moved renewal hrenewal =>
      exact Signals.quiet (h.same rfl id id (fun hended => absurd hended hrenewal) rfl) rfl rfl rfl
  | fired hrenewal =>
      exact (h.renewalFired hrenewal).after (List.append_nil _) (List.append_nil _) rfl

theorem Signals.step (h : Signals left gave renewals s) (hheard : Heard s) (e : Event) :
    SignalsAfter left gave renewals (step maxAttempts s e) := by
  have hsame {s' : State} (hphase : s'.phase = s.phase) (hconn : s'.conn = s.conn)
      (hheart : s'.heart = s.heart) (hrenewal : s'.renewal = s.renewal)
      (htrigger : s'.reconnectTrigger = s.reconnectTrigger) : Signals left gave renewals s' :=
    h.same hconn (fun ho => by unfold State.Open at ho ⊢; rwa [hphase] at ho)
      (fun hs => ⟨hheart.trans hs.1, hphase ▸ hs.2⟩) (fun hr => hrenewal.trans hr) htrigger
  cases e with
  | run e => exact h.runStep e
  | heart e => exact h.heartStep hheard e
  | renewal e => exact h.renewalStep e
  | pong id =>
      dsimp only [KucoinConnection.step]
      split
      · split <;> exact Signals.quiet (hsame rfl rfl rfl rfl rfl) rfl rfl rfl
      · exact h.quiet rfl rfl rfl
  | keepaliveFailed =>
      dsimp only [KucoinConnection.step]
      split <;> exact Signals.quiet (hsame rfl rfl rfl rfl rfl) rfl rfl rfl
  | keepaliveDone =>
      dsimp only [KucoinConnection.step]
      split <;> exact Signals.quiet (hsame rfl rfl rfl rfl rfl) rfl rfl rfl
  | _ => exact Signals.quiet (hsame rfl rfl rfl rfl rfl) rfl rfl rfl

theorem signals_run (maxAttempts : ℕ) (es : List Event) :
    Signals (leftOnTrigger (observed maxAttempts es)) (gaveUp (observed maxAttempts es))
      ((observed maxAttempts es).count .renewalGaveUp)
      (final (step maxAttempts) (start maxAttempts) es) := by
  refine (seen_invariant (I := fun seen s => Heard s ∧
    Signals (leftOnTrigger seen) (gaveUp seen) (seen.count .renewalGaveUp) s)
    ⟨heard_start maxAttempts, signals_start maxAttempts⟩ (fun seen s e h => ⟨h.1.step e, ?_⟩) es).2
  rw [leftOnTrigger, gaveUp, List.filterMap_append, List.filterMap_append, List.count_append]
  exact h.2.step h.1 e

/-- **Signals**: a signal makes `runLoop` leave one connection at most, a heartbeat gives up once
at most, and so does the renewal of the token.  Hence the connections that are left on the trigger
although their heartbeat has not given up are at most one more than those whose heartbeat gave up
and which are left for another reason, or not yet. -/
theorem healthy_left_le (maxAttempts : ℕ) (es : List Event) :
    (leftOnTrigger (observed maxAttempts es)).length ≤
        (gaveUp (observed maxAttempts es)).length +
          (observed maxAttempts es).count .renewalGaveUp ∧
      (gaveUp (observed maxAttempts es)).Nodup ∧
      (observed maxAttempts es).count .renewalGaveUp ≤ 1 ∧
      ((leftOnTrigger (observed maxAttempts es)).toFinset \
          (gaveUp (observed maxAttempts es)).toFinset).card ≤
        ((gaveUp (observed maxAttempts es)).toFinset \
          (leftOnTrigger (observed maxAttempts es)).toFinset).card + 1 := by
  have h := signals_run maxAttempts es
  have hrenewals : (observed maxAttempts es).count .renewalGaveUp ≤ 1 :=
    h.renewals_le.trans (by split <;> omega)
  have hbalance := (Nat.le_add_right _ _).trans h.balance
  refine ⟨hbalance, h.gave_once, hrenewals, ?_⟩
  rw [← List.toFinset_card_of_nodup h.left_once, ← List.toFinset_card_of_nodup h.gave_once]
    at hbalance
  generalize (leftOnTrigger (observed maxAttempts es)).toFinset = left at hbalance ⊢
  generalize (gaveUp (observed maxAttempts es)).toFinset = gave at hbalance ⊢
  have hleft := Finset.card_sdiff_add_card_inter left gave
  have hgave := Finset.card_sdiff_add_card_inter gave left
  rw [Finset.inter_comm] at hgave
  omega

/-- The transport and the heartbeat of a connection both signal, and the next one is left too. -/
example :
    leftOnTrigger (observed 5
      [.run .started, .heart .tick, .heart .writeFailed, .heart .fire, .keepaliveFailed,
        .run .transport, .readFailed, .run .joined, .run .dialled, .run .started,
        .run .trigger]) = [1] := by
  decide

/-! ### Pings -/

def Effect.answeredPing : Effect → Option ℕ
  | answered id => some id
  | _ => none

/-- The pings whose pong the heartbeat has taken. -/
def answered (seen : List Effect) : List ℕ := seen.filterMap Effect.answeredPing

def Heart.inFlight : Heart → Finset ℕ
  | writing id => {id}
  | waiting id => {id}
  | _ => ∅

structure Pings (seen : List Effect) (s : State) : Prop where
  pending : s.pendingPings = (answered seen).toFinset ∪ s.heart.inFlight
  fresh : Disjoint (answered seen).toFinset s.heart.inFlight
  once : (answered seen).Nodup
  pongs : ∀ id ∈ s.pongs, .pong id ∈ seen
  own : ∀ id ∈ answered seen, .pong id ∈ seen

theorem pings_start (maxAttempts : ℕ) : Pings [] (start maxAttempts) where
  pending := rfl
  fresh := Finset.disjoint_empty_left _
  once := List.nodup_nil
  pongs _ h := absurd h (Finset.notMem_empty _)
  own _ h := absurd h List.not_mem_nil

theorem answered_append : answered (seen ++ new) = answered seen ++ answered new :=
  List.filterMap_append

/-- A step without a ping of the heartbeat. -/
theorem Pings.quiet {s' : State} (h : Pings seen s) (hanswered : answered new = [])
    (hpending : s'.pendingPings = s.pendingPings) (hheart : s'.heart.inFlight = s.heart.inFlight)
    (hpongs : s'.pongs = s.pongs) : Pings (seen ++ new) s' := by
  have hanswered' : answered (seen ++ new) = answered seen := by
    rw [answered_append, hanswered, List.append_nil]
  constructor
  · rw [hanswered', hpending, hheart]
    exact h.pending
  · rw [hanswered', hheart]
    exact h.fresh
  · rw [hanswered']
    exact h.once
  · rw [hpongs]
    exact fun id hid => List.mem_append_left new (h.pongs id hid)
  · rw [hanswered']
    exact fun id hid => List.mem_append_left new (h.own id hid)

/-- The ping of the heartbeat fails. -/
theorem Pings.dropped {s' : State} {id : ℕ} (h : Pings seen s)
    (hheart : s.heart.inFlight = {id}) (hpending : s'.pendingPings = s.pendingPings.erase id)
    (hheart' : s'.heart.inFlight = ∅) (hpongs : s'.pongs = s.pongs) : Pings (seen ++ []) s' := by
  have hfresh := h.fresh
  rw [hheart, Finset.disjoint_singleton_right] at hfresh
  rw [List.append_nil]
  constructor
  · rw [hpending, h.pending, hheart, hheart', Finset.union_empty, Finset.erase_union_distrib,
      Finset.erase_eq_of_notMem hfresh, Finset.erase_singleton, Finset.union_empty]
  · rw [hheart']
    exact Finset.disjoint_empty_right _
  · exact h.once
  · rw [hpongs]
    exact h.pongs
  · exact h.own

theorem inFlight_of_running {id : ℕ} (hheart : s.heart = .writing id ∨ s.heart = .waiting id) :
    s.heart.inFlight = {id} := by
  rcases hheart with hheart | hheart <;> rw [hheart] <;> rfl

theorem Pings.heartStep (h : Pings seen s) (hheard : Heard s) (e : HeartEvent) :
    Pings (seen ++ (heartStep s e).2) (heartStep s e).1 := by
  have hstep := heartStepped s e
  revert hstep
  generalize KucoinConnection.heartStep s e = r
  intro hstep
  cases hstep with
  | idle => exact h.quiet rfl rfl rfl rfl
  | tick hheart =>
      have hnew : s.msgIDCounter + 1 ∉ s.pendingPings := fun hid =>
        Nat.not_succ_le_self _ (hheard.pings _ hid)
      have hpending := h.pending
      rw [hheart] at hpending
      have hfresh : s.msgIDCounter + 1 ∉ (answered seen).toFinset := fun hid =>
        hnew (hpending ▸ Finset.mem_union_left _ hid)
      rw [List.append_nil]
      constructor
      · rw [hpending]
        exact (congrArg _ (Finset.union_empty _)).trans (Finset.insert_eq _ _ |>.trans
          (Finset.union_comm _ _))
      · exact Finset.disjoint_singleton_right.mpr hfresh
      · exact h.once
      · exact h.pongs
      · exact h.own
  | wrote id hheart =>
      exact h.quiet rfl rfl (inFlight_of_running (.inl hheart)).symm rfl
  | answered id hheart hid =>
      have hflight := inFlight_of_running (.inr hheart)
      have hpending := h.pending
      have hfresh := h.fresh
      rw [hflight] at hpending
      rw [hflight, Finset.disjoint_singleton_right, List.mem_toFinset] at hfresh
      have hanswered : answered (seen ++ [.answered id]) = answered seen ++ [id] := answered_append
      constructor
      · rw [hanswered, List.toFinset_append]
        exact hpending.trans (Finset.union_empty _).symm
      · exact Finset.disjoint_empty_right _
      · rw [hanswered]
        refine List.nodup_append'.mpr ⟨h.once, List.nodup_singleton _, ?_⟩
        exact List.disjoint_singleton.mpr hfresh
      · exact fun id' hid' => List.mem_append_left _ (h.pongs id' (Finset.mem_of_mem_erase hid'))
      · rw [hanswered]
        intro id' hid'
        rcases List.mem_append.mp hid' with hid' | hid'
        · exact List.mem_append_left _ (h.own id' hid')
        · obtain rfl := List.mem_singleton.mp hid'
          exact List.mem_append_left _ (h.pongs _ hid)
  | failed id hheart => exact h.dropped (inFlight_of_running hheart) rfl rfl rfl
  | fired hheart => exact h.quiet rfl rfl (hheart ▸ rfl) rfl
  | done hheart _ => exact h.quiet rfl rfl (hheart ▸ rfl) rfl
  | dropped id hheart _ => exact h.dropped (inFlight_of_running hheart) rfl rfl rfl

theorem Pings.runStep (h : Pings seen s) (hheard : Heard s) (e : RunEvent) :
    Pings (seen ++ (runStep s e).2) (runStep s e).1 := by
  have hstep := runStepped s e
  revert hstep
  generalize KucoinConnection.runStep s e = r
  intro hstep
  cases hstep with
  | started hphase =>
      have hheart := hheard.resting (.inl hphase)
      exact h.quiet rfl rfl (hheart ▸ rfl) rfl
  | _ => exact h.quiet rfl rfl rfl rfl

theorem Pings.step (h : Pings seen s) (hheard : Heard s) (e : Event) :
    Pings (seen ++ (step maxAttempts s e).2) (step maxAttempts s e).1 := by
  cases e with
  | run e => exact h.runStep hheard e
  | heart e => exact h.heartStep hheard e
  | renewal e =>
      have hstep := renewalStepped maxAttempts s e
      dsimp only [KucoinConnection.step]
      revert hstep
      generalize renewalStep maxAttempts s e = r
      intro hstep
      cases hstep <;> exact h.quiet rfl rfl rfl rfl
  | pong id =>
      dsimp only [KucoinConnection.step]
      split
      · have hquiet : Pings (seen ++ [.pong id]) s := h.quiet rfl rfl rfl rfl
        split
        · refine ⟨hquiet.pending, hquiet.fresh, hquiet.once, fun id' hid' => ?_, hquiet.own⟩
          rcases Finset.mem_insert.mp hid' with rfl | hid'
          · exact List.mem_append_right _ List.mem_cons_self
          · exact hquiet.pongs id' hid'
        · exact hquiet
      · exact h.quiet rfl rfl rfl rfl
  | keepaliveFailed =>
      dsimp only [KucoinConnection.step]
      split <;> exact h.quiet rfl rfl rfl rfl
  | keepaliveDone =>
      dsimp only [KucoinConnection.step]
      split <;> exact h.quiet rfl rfl rfl rfl
  | _ => exact h.quiet rfl rfl rfl rfl

theorem pings_run (maxAttempts : ℕ) (es : List Event) :
    Pings (observed maxAttempts es)
      (final (step maxAttempts) (start maxAttempts) es) :=
  (seen_invariant (I := fun seen s => Heard s ∧ Pings seen s)
    ⟨heard_start maxAttempts, pings_start maxAttempts⟩
    (fun _ _ e h => ⟨h.1.step e, h.2.step h.1 e⟩) es).2

/-- **Pings**: a ping counts as answered once at most, and after its own pong was read.  The map
holds every answered ping for good, beside the one in flight. -/
theorem pendingPings_of_run (maxAttempts : ℕ) (es : List Event) :
    (final (step maxAttempts) (start maxAttempts) es).pendingPings.card =
        (answered (observed maxAttempts es)).length +
          (final (step maxAttempts) (start maxAttempts) es).heart.inFlight.card ∧
      (answered (observed maxAttempts es)).Nodup ∧
      ∀ id ∈ answered (observed maxAttempts es),
        id ∈ (final (step maxAttempts) (start maxAttempts) es).pendingPings ∧
          .pong id ∈ observed maxAttempts es := by
  have h := pings_run maxAttempts es
  refine ⟨?_, h.once, fun id hid => ⟨?_, h.own id hid⟩⟩
  · rw [h.pending, Finset.card_union_of_disjoint h.fresh, List.toFinset_card_of_nodup h.once]
  · rw [h.pending]
    exact Finset.mem_union_left _ (List.mem_toFinset.mpr hid)

end MagnumOpus.Aggregator.KucoinConnection
