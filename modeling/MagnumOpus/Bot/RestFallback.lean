import Mathlib.Data.List.Sort
import Mathlib.Data.List.TakeWhile
import MagnumOpus.Bot.Orders
import MagnumOpus.Lib.EventMachine

/-! # The private feeds and their fallback

A private feed (`exchange/bybit/ws_private.py`, `exchange/kucoin/ws_private.py`) hands the fills of
its session to `on_fill`.  When the session has been silent for too long, a second task polls the
fills of the exchange from the time of the last one.  The tasks run in turns, from one `await` to
the next; an event is what ends the `await` of one of them.

* **Once.** No order is handed over twice, whichever of the tasks finds it first, and one for which
  `on_fill` failed is never handed over again (`handed_once`).
* **Overtaken.** An order that the session has not brought is out of reach of all later polls as
  soon as the session brings a younger one (`not_handed_of_overtaken`). -/

namespace MagnumOpus.Bot
namespace PrivateFeed

open EventMachine
open scoped List

/-- The task of `_run_rest_fallback`. -/
inductive Poller
  /-- Not started, over, or dead. -/
  | ended
  /-- In `get_recent_fills`. -/
  | asking (sinceMs : ℤ)
  /-- The fills that are left, the first of which is being handed over; without any it sleeps. -/
  | working (fills : List OrderFilled)
  deriving DecidableEq

/-- A feed and its tasks. -/
structure Feed where
  lastMsgTs : ℚ
  lastFillTsMs : ℤ
  seenFillIds : List String
  fallbackActive : Bool
  /-- The session, with the fills that are left of its message, the first of which is being handed
  over. -/
  receiver : Option (List OrderFilled)
  /-- The task of `_run_liveness_checker`, up to the end of its `finally`. -/
  checker : Bool
  poller : Poller
  /-- `stop_event`. -/
  stopped : Bool
  deriving DecidableEq

/-- The feed before its first session. -/
def start (now : ℚ) : Feed := ⟨now, 0, [], false, none, false, .ended, false⟩

/-- What a feed does. -/
inductive Note
  /-- `on_fill` is called. -/
  | handed (fill : OrderFilled)
  /-- `on_fill` has returned. -/
  | returned (fill : OrderFilled)
  /-- `on_fill` has raised, or was cancelled. -/
  | lost (fill : OrderFilled)
  /-- `inc_fill_dedup`. -/
  | duplicate (fill : OrderFilled)
  deriving DecidableEq

inductive Event
  /-- A session is authenticated and subscribed. -/
  | opened (now : ℚ)
  /-- A message arrives, in which these fills are found. -/
  | message (now : ℚ) (fills : List OrderFilled)
  /-- `on_fill` returns to the session. -/
  | returned
  /-- The session ends: the connection does, or a message or `on_fill` raises. -/
  | closed
  /-- The liveness checker wakes up. -/
  | check (now : ℚ)
  /-- The `finally` of the liveness checker. -/
  | cleanup
  /-- The polling task starts or wakes up. -/
  | poll (nowMs : ℤ)
  /-- `get_recent_fills` returns. -/
  | answer (fills : List OrderFilled)
  /-- `on_fill` returns to the polling task. -/
  | pollReturned
  /-- An `ExchangeRESTError` in the polling task. -/
  | pollFailed
  /-- Any other exception there. -/
  | pollDied
  | stop

/-- A loop over fills up to its next `await`: the fills that were seen are passed over, the first
other one is remembered and handed over. -/
def Feed.takeUp (s : Feed) (fills : List OrderFilled) : Feed × List OrderFilled × List Note :=
  let work := fills.dropWhile (·.orderId ∈ s.seenFillIds)
  ({ s with seenFillIds := (work.take 1).map OrderFilled.orderId ++ s.seenFillIds }, work,
    (fills.takeWhile (·.orderId ∈ s.seenFillIds)).map .duplicate ++ (work.take 1).map .handed)

/-- The receiving task takes up fills (`_handle_ws_fill`). -/
def Feed.receive (s : Feed) (fills : List OrderFilled) : Feed × List Note :=
  ({ (s.takeUp fills).1 with receiver := some (s.takeUp fills).2.1 }, (s.takeUp fills).2.2)

/-- The polling task takes up fills. -/
def Feed.catchUp (s : Feed) (fills : List OrderFilled) : Feed × List Note :=
  ({ (s.takeUp fills).1 with poller := .working (s.takeUp fills).2.1 }, (s.takeUp fills).2.2)

/-- The fill that the polling task is handing over. -/
def Poller.inHand : Poller → List OrderFilled
  | working fills => fills.take 1
  | _ => []

/-- In a poll, not asleep. -/
def Poller.busy : Poller → Bool
  | asking _ => true
  | working fills => ¬ fills.isEmpty
  | ended => false

/-- The fill that the session is handing over. -/
def Feed.received (s : Feed) : List OrderFilled := (s.receiver.getD []).take 1

/-- The polling task is cancelled and `_fallback_active` is reset. -/
def Feed.cancelFallback (s : Feed) : Feed × List Note :=
  ({ s with poller := .ended, fallbackActive := false }, s.poller.inHand.map .lost)

/-- The time from which the next poll asks. -/
def Feed.sinceMs (s : Feed) (nowMs : ℤ) : ℤ :=
  if 0 < s.lastFillTsMs then s.lastFillTsMs else nowMs - 1800000

/-- `fills.sort(key=lambda f: f.ts_exchange)`. -/
def sortFills (fills : List OrderFilled) : List OrderFilled :=
  fills.insertionSort fun f g => f.tsExchange ≤ g.tsExchange

def step (timeoutS : ℚ) : Step Feed Event Note := fun s e =>
  match e with
  | .opened now =>
      if s.receiver = none ∧ s.checker = false then
        ({ s with lastMsgTs := now, receiver := some [], checker := true }, [])
      else (s, [])
  | .message now fills =>
      match s.receiver with
      | some [] =>
          if s.stopped then ({ s with receiver := none }, [])
          else { s with lastMsgTs := now }.receive fills
      | _ => (s, [])
  | .returned =>
      match s.receiver with
      | some (f :: rest) =>
          let next := { s with
            lastFillTsMs := if 0 < f.tsExchange then f.tsExchange else s.lastFillTsMs }.receive rest
          (next.1, .returned f :: next.2)
      | _ => (s, [])
  | .closed => ({ s with receiver := none }, s.received.map .lost)
  | .check now =>
      if s.checker ∧ s.receiver.isSome then
        if timeoutS < now - s.lastMsgTs ∧ s.fallbackActive = false then
          ({ s with fallbackActive := true, poller := .working [] }, [])
        else if ¬ timeoutS < now - s.lastMsgTs ∧ s.fallbackActive = true then s.cancelFallback
        else (s, [])
      else (s, [])
  | .cleanup =>
      if s.checker ∧ (s.receiver = none ∨ s.stopped) then
        ({ s.cancelFallback.1 with checker := false }, s.cancelFallback.2)
      else (s, [])
  | .poll nowMs =>
      match s.poller with
      | .working [] =>
          if s.stopped = false ∧ s.fallbackActive then
            ({ s with poller := .asking (s.sinceMs nowMs) }, [])
          else ({ s with poller := .ended }, [])
      | _ => (s, [])
  | .answer fills =>
      match s.poller with
      | .asking _ => s.catchUp (sortFills fills)
      | _ => (s, [])
  | .pollReturned =>
      match s.poller with
      | .working (f :: rest) =>
          let next := { s with lastFillTsMs := max s.lastFillTsMs f.tsExchange }.catchUp rest
          (next.1, .returned f :: next.2)
      | _ => (s, [])
  | .pollFailed =>
      if s.poller.busy then ({ s with poller := .working [] }, s.poller.inHand.map .lost)
      else (s, [])
  | .pollDied =>
      if s.poller.busy then ({ s with poller := .ended }, s.poller.inHand.map .lost) else (s, [])
  | .stop => ({ s with stopped := true }, [])

/-! ### Once -/

def Note.handedFill : Note → Option OrderFilled
  | handed f => some f
  | _ => none

def Note.settledFill : Note → Option OrderFilled
  | returned f => some f
  | lost f => some f
  | _ => none

/-- The fills that `on_fill` was called with. -/
def handed (notes : List Note) : List OrderFilled := notes.filterMap Note.handedFill

/-- The fills for which `on_fill` is over. -/
def settled (notes : List Note) : List OrderFilled := notes.filterMap Note.settledFill

/-- The fills for which `on_fill` is not over. -/
def Feed.inHand (s : Feed) : List OrderFilled := s.received ++ s.poller.inHand

@[simp] theorem handed_append (ns ns' : List Note) : handed (ns ++ ns') = handed ns ++ handed ns' :=
  List.filterMap_append

@[simp] theorem settled_append (ns ns' : List Note) :
    settled (ns ++ ns') = settled ns ++ settled ns' :=
  List.filterMap_append

@[simp] theorem handed_nil : handed [] = [] := rfl

@[simp] theorem settled_nil : settled [] = [] := rfl

@[simp] theorem handed_map_returned (fs : List OrderFilled) : handed (fs.map .returned) = [] := by
  rw [handed, List.filterMap_map]
  exact List.filterMap_eq_nil_iff.mpr fun _ _ => rfl

@[simp] theorem settled_map_returned (fs : List OrderFilled) : settled (fs.map .returned) = fs := by
  rw [settled, List.filterMap_map]
  exact List.filterMap_some

@[simp] theorem handed_map_lost (fs : List OrderFilled) : handed (fs.map .lost) = [] := by
  rw [handed, List.filterMap_map]
  exact List.filterMap_eq_nil_iff.mpr fun _ _ => rfl

@[simp] theorem settled_map_lost (fs : List OrderFilled) : settled (fs.map .lost) = fs := by
  rw [settled, List.filterMap_map]
  exact List.filterMap_some

variable {s : Feed} {fills : List OrderFilled}

@[simp] theorem handed_takeUp :
    handed (s.takeUp fills).2.2 = (s.takeUp fills).2.1.take 1 := by
  rw [Feed.takeUp, handed_append, handed, handed, List.filterMap_map, List.filterMap_map]
  have hpassed : ∀ fs : List OrderFilled, fs.filterMap (Note.handedFill ∘ .duplicate) = [] :=
    fun fs => List.filterMap_eq_nil_iff.mpr fun _ _ => rfl
  rw [hpassed, List.nil_append]
  exact List.filterMap_some

@[simp] theorem settled_takeUp : settled (s.takeUp fills).2.2 = [] := by
  rw [Feed.takeUp, settled_append, settled, settled, List.filterMap_map, List.filterMap_map]
  exact List.append_eq_nil_iff.mpr ⟨List.filterMap_eq_nil_iff.mpr fun _ _ => rfl,
    List.filterMap_eq_nil_iff.mpr fun _ _ => rfl⟩

@[simp] theorem seenFillIds_takeUp :
    (s.takeUp fills).1.seenFillIds =
      ((s.takeUp fills).2.1.take 1).map OrderFilled.orderId ++ s.seenFillIds := rfl

theorem not_mem_seen_of_takeUp {f : OrderFilled} (h : f ∈ (s.takeUp fills).2.1.take 1) :
    f.orderId ∉ s.seenFillIds := by
  have hwork : (s.takeUp fills).2.1 = fills.dropWhile (·.orderId ∈ s.seenFillIds) := rfl
  rw [hwork] at h
  cases hdrop : fills.dropWhile (·.orderId ∈ s.seenFillIds) with
  | nil =>
      rw [hdrop] at h
      exact absurd h List.not_mem_nil
  | cons g rest =>
      rw [hdrop] at h
      obtain rfl := List.mem_singleton.mp h
      have hhead := List.head_dropWhile_not (p := (·.orderId ∈ s.seenFillIds)) (l := fills)
        (by rw [hdrop]; exact List.cons_ne_nil _ _)
      simpa [hdrop] using hhead

/-- What a step does to the fills. -/
structure Keeps (s s' : Feed) (notes : List Note) : Prop where
  seen : s'.seenFillIds = ((handed notes).map OrderFilled.orderId).reverse ++ s.seenFillIds
  new : ∀ f ∈ handed notes, f.orderId ∉ s.seenFillIds
  single : (handed notes).length ≤ 1
  fate : (handed notes ++ s.inHand).Perm (settled notes ++ s'.inHand)

/-- A loop goes on when `done` are over and `left` are with the other task. -/
theorem keeps_takeUp {s s₀ s' : Feed} (done left : List OrderFilled)
    (hseen₀ : s₀.seenFillIds = s.seenFillIds)
    (hseen : s'.seenFillIds = (s₀.takeUp fills).1.seenFillIds)
    (hbefore : s.inHand.Perm (done ++ left))
    (hafter : s'.inHand.Perm ((s₀.takeUp fills).2.1.take 1 ++ left)) :
    Keeps s s' (done.map .returned ++ (s₀.takeUp fills).2.2) := by
  have hhanded : handed (done.map .returned ++ (s₀.takeUp fills).2.2) =
      (s₀.takeUp fills).2.1.take 1 := by simp
  have hsettled : settled (done.map .returned ++ (s₀.takeUp fills).2.2) = done := by simp
  refine ⟨?_, fun f hf => ?_, ?_, ?_⟩
  · rw [hhanded, hseen, seenFillIds_takeUp, hseen₀]
    rcases (s₀.takeUp fills).2.1 with _ | ⟨f, rest⟩ <;> rfl
  · exact hseen₀ ▸ not_mem_seen_of_takeUp (hhanded ▸ hf)
  · exact hhanded ▸ List.length_take_le 1 _
  · rw [hhanded, hsettled]
    calc (s₀.takeUp fills).2.1.take 1 ++ s.inHand
      _ ~ (s₀.takeUp fills).2.1.take 1 ++ (done ++ left) := hbefore.append_left _
      _ ~ done ++ ((s₀.takeUp fills).2.1.take 1 ++ left) := List.perm_append_comm_assoc _ _ _
      _ ~ done ++ s'.inHand := (hafter.append_left done).symm

theorem keeps_lost {s s' : Feed} (fs : List OrderFilled) (hseen : s'.seenFillIds = s.seenFillIds)
    (hhand : s.inHand.Perm (fs ++ s'.inHand)) : Keeps s s' (fs.map .lost) where
  seen := by rw [handed_map_lost, hseen]; rfl
  new := by simp
  single := by simp
  fate := by rw [handed_map_lost, settled_map_lost]; exact hhand

theorem keeps_refl (s : Feed) : Keeps s s [] := keeps_lost [] rfl (List.Perm.refl _)

/-- The polling task loses what it is handing over. -/
theorem keeps_pollLost {s s' : Feed} (hseen : s'.seenFillIds = s.seenFillIds)
    (hreceiver : s'.receiver = s.receiver) (hpoller : s'.poller.inHand = []) :
    Keeps s s' (s.poller.inHand.map .lost) := by
  refine keeps_lost _ hseen ?_
  rw [Feed.inHand, Feed.inHand, hpoller, Feed.received, Feed.received, hreceiver, List.append_nil]
  exact List.perm_append_comm

/-- Without `_fallback_active` there is no polling task. -/
def Feed.OnePoller (s : Feed) : Prop := s.fallbackActive = false → s.poller = .ended

theorem onePoller_start (now : ℚ) : (start now).OnePoller := fun _ => rfl

theorem onePoller_step (timeoutS : ℚ) {s : Feed} (h : s.OnePoller) (e : Event) :
    (step timeoutS s e).1.OnePoller := by
  unfold Feed.OnePoller at *
  cases e <;> unfold step <;> dsimp only
  case opened now => split <;> exact h
  case message now fills =>
    split
    · split <;> exact h
    · exact h
  case returned => split <;> exact h
  case closed => exact h
  case check now =>
    split
    · split
      · exact fun hoff => Bool.noConfusion hoff
      · split
        · exact fun _ => rfl
        · exact h
    · exact h
  case cleanup =>
    split
    · exact fun _ => rfl
    · exact h
  case poll nowMs =>
    split
    · split
      · next hon => exact fun hoff => absurd (hon.2.symm.trans hoff) (by decide)
      · exact fun _ => rfl
    · exact h
  case answer fills =>
    split
    · next hasking => exact fun hoff => absurd (hasking.symm.trans (h hoff)) (by simp)
    · exact h
  case pollReturned =>
    split
    · next hbusy => exact fun hoff => absurd (hbusy.symm.trans (h hoff)) (by simp)
    · exact h
  case pollFailed =>
    split
    · next hbusy =>
        intro hoff
        rw [h hoff] at hbusy
        cases hbusy
    · exact h
  case pollDied =>
    split
    · exact fun _ => rfl
    · exact h
  case stop => exact h

/-- Every step keeps account of the fills. -/
theorem keeps_step (timeoutS : ℚ) {s : Feed} (h : s.OnePoller) (e : Event) :
    Keeps s (step timeoutS s e).1 (step timeoutS s e).2 := by
  cases e with
  | opened now =>
      unfold step
      dsimp only
      split
      · next h =>
          refine keeps_lost [] rfl ?_
          rw [List.nil_append, Feed.inHand, Feed.received, h.1]
          rfl
      · exact keeps_refl s
  | message now fills =>
      unfold step
      dsimp only
      split
      · next hidle =>
          have hinHand : s.inHand = s.poller.inHand := by
            rw [Feed.inHand, Feed.received, hidle]
            rfl
          split
          · refine keeps_lost [] rfl ?_
            rw [hinHand]
            rfl
          · refine keeps_takeUp [] s.inHand rfl rfl (List.Perm.refl _) ?_
            rw [hinHand]
            rfl
      · exact keeps_refl s
  | returned =>
      unfold step
      dsimp only
      split
      · next f rest hbusy =>
          refine keeps_takeUp [f] s.poller.inHand rfl rfl ?_ (List.Perm.refl _)
          rw [Feed.inHand, Feed.received, hbusy]
          rfl
      · exact keeps_refl s
  | closed => exact keeps_lost _ rfl (List.Perm.refl _)
  | check now =>
      unfold step
      dsimp only
      split
      · split
        · next hoff =>
            refine keeps_lost [] rfl ?_
            rw [List.nil_append, Feed.inHand, h hoff.2]
            exact List.Perm.refl _
        · split
          · exact keeps_pollLost rfl rfl rfl
          · exact keeps_refl s
      · exact keeps_refl s
  | cleanup =>
      unfold step
      dsimp only
      split
      · exact keeps_pollLost rfl rfl rfl
      · exact keeps_refl s
  | poll nowMs =>
      unfold step
      dsimp only
      split
      · next hidle =>
          have hinHand : s.inHand = s.received ++ [] := by rw [Feed.inHand, hidle]; rfl
          split <;> exact keeps_lost [] rfl (hinHand ▸ List.Perm.refl _)
      · exact keeps_refl s
  | answer fills =>
      unfold step
      dsimp only
      split
      · next hasking =>
          refine keeps_takeUp [] s.received rfl rfl ?_ List.perm_append_comm
          rw [Feed.inHand, hasking]
          exact List.append_nil _ ▸ List.Perm.refl _
      · exact keeps_refl s
  | pollReturned =>
      unfold step
      dsimp only
      split
      · next f rest hbusy =>
          refine keeps_takeUp [f] s.received rfl rfl ?_ List.perm_append_comm
          rw [Feed.inHand, hbusy]
          exact List.perm_append_comm
      · exact keeps_refl s
  | pollFailed =>
      unfold step
      dsimp only
      split
      · exact keeps_pollLost rfl rfl rfl
      · exact keeps_refl s
  | pollDied =>
      unfold step
      dsimp only
      split
      · exact keeps_pollLost rfl rfl rfl
      · exact keeps_refl s
  | stop => exact keeps_lost [] rfl (List.Perm.refl _)

theorem keeps_run (timeoutS : ℚ) {s : Feed} (h : s.OnePoller) (hnodup : s.seenFillIds.Nodup)
    (es : List Event) :
    (final (step timeoutS) s es).seenFillIds.Nodup ∧
      (final (step timeoutS) s es).seenFillIds =
        ((handed (trace (step timeoutS) s es)).map OrderFilled.orderId).reverse ++ s.seenFillIds ∧
      (handed (trace (step timeoutS) s es) ++ s.inHand).Perm
        (settled (trace (step timeoutS) s es) ++ (final (step timeoutS) s es).inHand) := by
  induction es generalizing s with
  | nil => exact ⟨hnodup, rfl, List.Perm.refl _⟩
  | cons e es ih =>
      have hstep := keeps_step timeoutS h e
      have hnodup' : (step timeoutS s e).1.seenFillIds.Nodup := by
        rw [hstep.seen]
        have hnew := hstep.new
        have hsingle := hstep.single
        generalize handed (step timeoutS s e).2 = new at hnew hsingle ⊢
        rcases new with _ | ⟨f, _ | ⟨g, rest⟩⟩
        · exact hnodup
        · exact List.nodup_cons.mpr ⟨hnew f List.mem_cons_self, hnodup⟩
        · rw [List.length_cons, List.length_cons] at hsingle
          omega
      obtain ⟨hfinal, hseen, hfate⟩ := ih (onePoller_step timeoutS h e) hnodup'
      rw [trace_cons, final_cons, handed_append, settled_append]
      refine ⟨hfinal, ?_, ?_⟩
      · rw [hseen, hstep.seen, List.map_append, List.reverse_append, List.append_assoc]
      · generalize handed (trace (step timeoutS) (step timeoutS s e).1 es) = later at hfate ⊢
        generalize settled (trace (step timeoutS) (step timeoutS s e).1 es) = past at hfate ⊢
        calc handed (step timeoutS s e).2 ++ later ++ s.inHand
          _ ~ later ++ (handed (step timeoutS s e).2 ++ s.inHand) := by
              rw [List.append_assoc]
              exact List.perm_append_comm_assoc _ _ _
          _ ~ later ++ (settled (step timeoutS s e).2 ++ (step timeoutS s e).1.inHand) :=
              hstep.fate.append_left _
          _ ~ settled (step timeoutS s e).2 ++ (later ++ (step timeoutS s e).1.inHand) :=
              List.perm_append_comm_assoc _ _ _
          _ ~ settled (step timeoutS s e).2 ++ (past ++ _) := hfate.append_left _
          _ = settled (step timeoutS s e).2 ++ past ++ _ := (List.append_assoc _ _ _).symm

/-- **In every interleaving of a feed's tasks `on_fill` is called at most once for an order, and
every call has returned, has failed or is under way.**  So an order is not handed over again after
its call has failed. -/
theorem handed_once (timeoutS now : ℚ) (es : List Event) :
    ((handed (trace (step timeoutS) (start now) es)).map OrderFilled.orderId).Nodup ∧
      (∀ id, id ∈ (final (step timeoutS) (start now) es).seenFillIds ↔
        id ∈ (handed (trace (step timeoutS) (start now) es)).map OrderFilled.orderId) ∧
      (handed (trace (step timeoutS) (start now) es)).Perm
        (settled (trace (step timeoutS) (start now) es) ++
          (final (step timeoutS) (start now) es).inHand) := by
  obtain ⟨hnodup, hseen, hfate⟩ :=
    keeps_run timeoutS (onePoller_start now) (s := start now) List.nodup_nil es
  have hseen' : (final (step timeoutS) (start now) es).seenFillIds =
      ((handed (trace (step timeoutS) (start now) es)).map OrderFilled.orderId).reverse :=
    hseen.trans (List.append_nil _)
  refine ⟨?_, fun id => ?_, ?_⟩
  · rw [hseen', List.nodup_reverse] at hnodup
    exact hnodup
  · rw [hseen', List.mem_reverse]
  · have hnone : (start now).inHand = [] := rfl
    rwa [hnone, List.append_nil] at hfate

/-! ### Overtaken -/

/-- A report of another order that does not take the last time back to `ts`. -/
def Younger (id : String) (ts : ℤ) (f : OrderFilled) : Prop :=
  f.orderId ≠ id ∧ (0 < f.tsExchange → ts < f.tsExchange)

/-- The polls have passed an order. -/
structure Overtaken (id : String) (ts : ℤ) (s : Feed) : Prop where
  unseen : id ∉ s.seenFillIds
  pos : 0 < s.lastFillTsMs
  passed : ts < s.lastFillTsMs
  receiver : ∀ f ∈ s.receiver.getD [], Younger id ts f
  asking : ∀ since, s.poller = .asking since → ts < since
  working : ∀ work, s.poller = .working work → ∀ f ∈ work, f.orderId ≠ id

/-- The session brings reports of other orders, later ones; the exchange answers from the time that
it is asked for, and reports the order with its time. -/
def Later (id : String) (ts : ℤ) (s : Feed) : Event → Prop
  | .message _ fills => ∀ f ∈ fills, Younger id ts f
  | .answer fills => ∀ since, s.poller = .asking since →
      ∀ f ∈ fills, since ≤ f.tsExchange ∧ (f.orderId = id → f.tsExchange ≤ ts)
  | _ => True

section

variable {id : String} {ts : ℤ}

theorem mem_of_mem_takeUp {f : OrderFilled} (h : f ∈ (s.takeUp fills).2.1) : f ∈ fills :=
  (List.dropWhile_suffix _).subset h

theorem unseen_takeUp (h : id ∉ s.seenFillIds) (hfills : ∀ f ∈ fills, f.orderId ≠ id) :
    id ∉ (s.takeUp fills).1.seenFillIds := by
  rw [seenFillIds_takeUp, List.mem_append]
  rintro (hmem | hmem)
  · obtain ⟨f, hf, rfl⟩ := List.mem_map.mp hmem
    exact hfills f (mem_of_mem_takeUp (List.mem_of_mem_take hf)) rfl
  · exact h hmem

theorem Overtaken.receive (h : Overtaken id ts s) (hfills : ∀ f ∈ fills, Younger id ts f) :
    Overtaken id ts (s.receive fills).1 where
  unseen := unseen_takeUp h.unseen fun f hf => (hfills f hf).1
  pos := h.pos
  passed := h.passed
  receiver := fun f hf => hfills f (mem_of_mem_takeUp hf)
  asking := h.asking
  working := h.working

theorem Overtaken.catchUp (h : Overtaken id ts s) (hfills : ∀ f ∈ fills, f.orderId ≠ id) :
    Overtaken id ts (s.catchUp fills).1 where
  unseen := unseen_takeUp h.unseen hfills
  pos := h.pos
  passed := h.passed
  receiver := h.receiver
  asking := fun _ hasking => Poller.noConfusion hasking
  working := fun work hwork f hf => by
    obtain rfl := Poller.working.inj hwork
    exact hfills f (mem_of_mem_takeUp hf)

theorem Overtaken.withPoller (h : Overtaken id ts s) {s' : Feed}
    (hseen : s'.seenFillIds = s.seenFillIds) (hlast : s'.lastFillTsMs = s.lastFillTsMs)
    (hreceiver : s'.receiver = s.receiver)
    (hasking : ∀ since, s'.poller = .asking since → ts < since)
    (hworking : ∀ work, s'.poller = .working work → ∀ f ∈ work, f.orderId ≠ id) :
    Overtaken id ts s' where
  unseen := hseen ▸ h.unseen
  pos := hlast ▸ h.pos
  passed := hlast ▸ h.passed
  receiver := hreceiver ▸ h.receiver
  asking := hasking
  working := hworking

/-- A loop of the polling task is over, or starts. -/
theorem Overtaken.withoutPoll (h : Overtaken id ts s) {s' : Feed}
    (hseen : s'.seenFillIds = s.seenFillIds) (hlast : s'.lastFillTsMs = s.lastFillTsMs)
    (hreceiver : s'.receiver = s.receiver)
    (hpoller : s'.poller = .ended ∨ s'.poller = .working []) : Overtaken id ts s' := by
  refine h.withPoller hseen hlast hreceiver (fun since hasking => ?_) fun work hwork f hf => ?_
  · rcases hpoller with hpoller | hpoller <;> rw [hpoller] at hasking <;> cases hasking
  · rcases hpoller with hpoller | hpoller <;> rw [hpoller] at hwork <;> cases hwork
    cases hf

theorem overtaken_step (timeoutS : ℚ) (h : Overtaken id ts s) {e : Event} (he : Later id ts s e) :
    Overtaken id ts (step timeoutS s e).1 := by
  cases e <;> unfold step <;> dsimp only
  case opened now =>
    split
    · exact { h with receiver := fun f hf => absurd hf List.not_mem_nil }
    · exact h
  case message now fills =>
    split
    · split
      · exact { h with receiver := fun f hf => absurd hf List.not_mem_nil }
      · exact Overtaken.receive { h with } he
    · exact h
  case returned =>
    split
    · next f rest hbusy =>
        have hwork : ∀ g ∈ f :: rest, Younger id ts g := by
          have hreceiver := h.receiver
          rw [hbusy] at hreceiver
          exact hreceiver
        refine Overtaken.receive { h with pos := ?_, passed := ?_ } fun g hg =>
          hwork g (List.mem_cons_of_mem f hg)
        · dsimp only
          split
          · next hpos => exact hpos
          · exact h.pos
        · dsimp only
          split
          · next hpos => exact (hwork f List.mem_cons_self).2 hpos
          · exact h.passed
    · exact h
  case closed => exact { h with receiver := fun f hf => absurd hf List.not_mem_nil }
  case check now =>
    split
    · split
      · exact h.withoutPoll rfl rfl rfl (.inr rfl)
      · split
        · exact h.withoutPoll rfl rfl rfl (.inl rfl)
        · exact h
    · exact h
  case cleanup =>
    split
    · exact h.withoutPoll rfl rfl rfl (.inl rfl)
    · exact h
  case poll nowMs =>
    split
    · split
      · refine h.withPoller rfl rfl rfl (fun since hasking => ?_) fun _ hwork =>
          Poller.noConfusion hwork
        obtain rfl := Poller.asking.inj hasking
        rw [Feed.sinceMs, if_pos h.pos]
        exact h.passed
      · exact h.withoutPoll rfl rfl rfl (.inl rfl)
    · exact h
  case answer fills =>
    split
    · next since hasking =>
        refine h.catchUp fun f hf hid => ?_
        obtain ⟨hsince, hts⟩ := he since hasking f ((List.mem_insertionSort _).mp hf)
        have hpassed := h.asking since hasking
        have := hts hid
        omega
    · exact h
  case pollReturned =>
    split
    · next f rest hbusy =>
        refine Overtaken.catchUp { h with pos := ?_, passed := ?_ } fun g hg =>
          h.working _ hbusy g (List.mem_cons_of_mem f hg)
        · exact lt_max_of_lt_left h.pos
        · exact lt_max_of_lt_left h.passed
    · exact h
  case pollFailed =>
    split
    · exact h.withoutPoll rfl rfl rfl (.inr rfl)
    · exact h
  case pollDied =>
    split
    · exact h.withoutPoll rfl rfl rfl (.inl rfl)
    · exact h
  case stop => exact { h with }

/-- What is handed over is seen from then on. -/
theorem mem_seen_of_handed {timeoutS : ℚ} (h : s.OnePoller) {e : Event} {f : OrderFilled}
    (hf : f ∈ handed (step timeoutS s e).2) : f.orderId ∈ (step timeoutS s e).1.seenFillIds := by
  rw [(keeps_step timeoutS h e).seen]
  exact List.mem_append_left _ (List.mem_reverse.mpr (List.mem_map_of_mem hf))

theorem not_handed_of_unseen {timeoutS : ℚ} (h : s.OnePoller) {e : Event}
    (hunseen : id ∉ (step timeoutS s e).1.seenFillIds) :
    id ∉ (handed (step timeoutS s e).2).map OrderFilled.orderId := by
  intro hmem
  obtain ⟨f, hf, rfl⟩ := List.mem_map.mp hmem
  exact hunseen (mem_seen_of_handed h hf)

theorem not_handed_run {timeoutS : ℚ} (hone : s.OnePoller) (h : Overtaken id ts s) {es : List Event}
    (hes : Along (step timeoutS) (Later id ts) s es) :
    id ∉ (handed (trace (step timeoutS) s es)).map OrderFilled.orderId := by
  induction es generalizing s with
  | nil => exact List.not_mem_nil
  | cons e es ih =>
      have hnext := overtaken_step timeoutS h hes.1
      rw [trace_cons, handed_append, List.map_append, List.mem_append]
      rintro (hmem | hmem)
      · exact not_handed_of_unseen hone hnext.unseen hmem
      · exact ih (onePoller_step timeoutS hone e) hnext hes.2 hmem

/-- **Once `on_fill` has returned to the session for a younger fill while no poll is under way, an
order that was not seen is never handed over, however often the fallback polls, as long as the
session does not bring it.** -/
theorem not_handed_of_overtaken {timeoutS : ℚ} (hone : s.OnePoller) {f : OrderFilled}
    {rest : List OrderFilled} (hunseen : id ∉ s.seenFillIds) (hbusy : s.receiver = some (f :: rest))
    (hpos : 0 < f.tsExchange) (hyounger : ∀ g ∈ f :: rest, Younger id ts g)
    (hidle : s.poller.busy = false) {es : List Event}
    (hes : Along (step timeoutS) (Later id ts) (step timeoutS s .returned).1 es) :
    id ∉ (handed (trace (step timeoutS) s (.returned :: es))).map OrderFilled.orderId := by
  have hstep : (step timeoutS s .returned).1 =
      ({ s with lastFillTsMs := f.tsExchange }.receive rest).1 := by
    unfold step
    dsimp only
    rw [hbusy]
    dsimp only
    rw [if_pos hpos]
  have hovertaken : Overtaken id ts { s with lastFillTsMs := f.tsExchange } := by
    refine ⟨hunseen, hpos, (hyounger f List.mem_cons_self).2 hpos, ?_, fun since hasking => ?_,
      fun work hwork => ?_⟩
    · show ∀ g ∈ s.receiver.getD [], Younger id ts g
      rw [hbusy]
      exact hyounger
    · rw [show s.poller = .asking since from hasking] at hidle
      cases hidle
    · rw [show s.poller = .working work from hwork] at hidle
      cases work with
      | nil => exact fun _ hg => absurd hg List.not_mem_nil
      | cons g rest => cases hidle
  have hnext : Overtaken id ts (step timeoutS s .returned).1 :=
    hstep ▸ hovertaken.receive fun g hg => hyounger g (List.mem_cons_of_mem f hg)
  rw [trace_cons, handed_append, List.map_append, List.mem_append]
  rintro (hmem | hmem)
  · exact not_handed_of_unseen hone hnext.unseen hmem
  · exact not_handed_run (onePoller_step timeoutS hone .returned) hnext hes hmem

end

/-- An order of the exchange, filled at a time. -/
def filledAt (id : String) (ts : ℤ) : OrderFilled := ⟨id, "bybit", "BTCUSDT", .buy, 1, 1, 0, ts⟩

/-- The session holds on to one order while another one is missing. -/
def ahead : Feed := { start 0 with receiver := some [filledAt "b" 20], checker := true }

theorem missing_order_not_handed :
    "a" ∉ (handed (trace (step 30) ahead
      (.returned :: [.check 31, .poll 0, .answer [filledAt "c" 25]]))).map OrderFilled.orderId := by
  have hyounger : ∀ g ∈ [filledAt "b" 20], Younger "a" 10 g := by
    intro g hg
    obtain rfl := List.mem_singleton.mp hg
    exact ⟨by decide, fun _ => by decide⟩
  refine not_handed_of_overtaken (fun _ => rfl) List.not_mem_nil rfl (by decide) hyounger
    rfl ⟨trivial, trivial, fun since hasking f hf => ?_, trivial⟩
  obtain rfl := List.mem_singleton.mp hf
  refine ⟨?_, fun hid => absurd hid (by decide)⟩
  have hpoller : (final (step 30) ahead [.returned, .check 31, .poll 0]).poller = .asking 20 := by
    decide +kernel
  obtain rfl := Poller.asking.inj (hpoller.symm.trans hasking)
  decide

end PrivateFeed
end MagnumOpus.Bot
