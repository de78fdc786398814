import MagnumOpus.Lib.EventMachine
import MagnumOpus.Bot.GapGating

/-! # The queue between the bus and a strategy

`BusManager._deliver` in `event_bus.py` and the `asyncio.Queue` of a strategy.  The bus thread
tests the size of the queue, drops the two oldest events when it is at its depth, and schedules
puts, first of a gap marker and then of the event; the loop of the strategy runs the puts, each of
which waits while the queue is full, and the strategy takes events when it gets to them.  Each of
these is a step of its own.

* **The hope.** `Ordered`: events reach the strategy in the order in which they were routed.
  `Visible`: the first event of a symbol that reaches it after one that was dropped is a gap marker
  of the symbol.
* **Why it fails.** The marker of an overflow names no symbol (`overflow_hides_gap`), and a put that
  waits is overtaken by puts that come later.
* **When it holds.** `Safe`: no put overtakes another, and whatever is dropped is followed, among
  the events of its symbol, by a gap marker (`ordered_visible`). -/

namespace MagnumOpus.Bot

open EventMachine

def BusEvent.symbol : BusEvent → String
  | .barClose e => e.symbol
  | .gap e => e.symbol
  | .obSnapshot e => e.symbol
  | .tick e => e.symbol
  | .fundingRate e => e.symbol

/-- A gap marker that makes every strategy treat the signals of the symbol as invalid. -/
def BusEvent.Marks (symbol : String) (e : BusEvent) : Prop :=
  ∃ gap, e = .gap gap ∧ ∀ s : Strategy, (s.handleGap gap).signalInvalid symbol = true

theorem BusEvent.marks_iff {symbol : String} {e : BusEvent} :
    e.Marks symbol ↔ ∃ gap, e = .gap gap ∧ gap.symbol = symbol := by
  refine exists_congr fun gap => and_congr_right fun _ => ?_
  constructor
  · intro h
    by_contra hne
    have hinvalid := h {}
    rw [Strategy.handleGap_signalInvalid, Function.update_of_ne (Ne.symm hne)] at hinvalid
    cases hinvalid
  · rintro rfl s
    rw [Strategy.handleGap_signalInvalid, Function.update_self]

/-- A callback of the loop, for the put of the event at a place of the log. -/
inductive Ready where
  /-- Makes the put a task. -/
  | create (i : ℕ)
  /-- Runs the task. -/
  | resume (i : ℕ)
deriving DecidableEq

def Ready.place : Ready → ℕ
  | .create i => i
  | .resume i => i

/-- What the bus thread still has to do for an event. -/
inductive BusAction where
  | testSize (event : BusEvent) (now : ℤ)
  | dropOldest
  | enqueue (event : BusEvent)
deriving DecidableEq

/-- How an event has left the queue. -/
inductive Departure where
  | received
  | dropped
deriving DecidableEq

structure StrategyQueue where
  /-- Everything that the bus has scheduled, in order. -/
  log : List BusEvent := []
  /-- The events in the queue, by their place in the log. -/
  items : List ℕ := []
  /-- The callbacks that the loop will run, in order. -/
  ready : List Ready := []
  /-- The puts that wait for room. -/
  putters : List ℕ := []
  /-- The events that have left the queue, in order. -/
  departed : List (ℕ × Departure) := []
  bus : List BusAction := []

inductive QueueInput where
  /-- The bus thread routes an event. -/
  | deliver (event : BusEvent) (now : ℤ)
  /-- The bus thread goes on. -/
  | bus
  /-- The loop of the strategy runs its next callback. -/
  | loop
  /-- The strategy takes an event. -/
  | get

/-- The bound of the queue, and the depth that the bus tests for. -/
structure QueueDepth where
  maxsize : ℕ
  maxDepth : ℕ

namespace StrategyQueue

variable (D : QueueDepth)

def full (s : StrategyQueue) : Prop := D.maxsize ≠ 0 ∧ D.maxsize ≤ s.items.length

instance (s : StrategyQueue) : Decidable (s.full D) :=
  inferInstanceAs (Decidable (D.maxsize ≠ 0 ∧ D.maxsize ≤ s.items.length))

/-- Takes the oldest event and wakes the put that has waited longest. -/
def getNowait (s : StrategyQueue) (how : Departure) : StrategyQueue :=
  match s.items with
  | [] => s
  | i :: items =>
      { s with
        items
        departed := s.departed ++ [(i, how)]
        ready := s.ready ++ (s.putters.take 1).map .resume
        putters := s.putters.drop 1 }

def overflowMarker (now : ℤ) : BusEvent :=
  .gap { exchange := "", symbol := "", gapCause := "queue_overflow", ts := now }

def enqueue (s : StrategyQueue) (event : BusEvent) : StrategyQueue :=
  { s with log := s.log ++ [event], ready := s.ready ++ [.create s.log.length] }

/-- What the bus thread does for an event of which it has tested the size. -/
def deliver (s : StrategyQueue) (event : BusEvent) (now : ℤ) : List BusAction :=
  if D.maxDepth ≤ s.items.length then
    [.dropOldest, .dropOldest, .enqueue (overflowMarker now), .enqueue event]
  else [.enqueue event]

/-- A put goes on: it waits while the queue is full. -/
def put (s : StrategyQueue) (i : ℕ) : StrategyQueue :=
  if s.full D then { s with putters := s.putters ++ [i] } else { s with items := s.items ++ [i] }

def step : Step StrategyQueue QueueInput Empty := fun s e =>
  match e with
  | .deliver event now =>
      (if s.bus = [] then { s with bus := [.testSize event now] } else s, [])
  | .bus =>
      match s.bus with
      | [] => (s, [])
      | .testSize event now :: rest => ({ s with bus := s.deliver D event now ++ rest }, [])
      | .dropOldest :: rest => ({ s with bus := rest }.getNowait .dropped, [])
      | .enqueue event :: rest => ({ s with bus := rest }.enqueue event, [])
  | .loop =>
      match s.ready with
      | [] => (s, [])
      | .create i :: rest => ({ s with ready := rest ++ [.resume i] }, [])
      | .resume i :: rest => ({ s with ready := rest }.put D i, [])
  | .get => (s.getNowait .received, [])

/-! ### What should hold -/

/-- The events that have reached the strategy. -/
def received (departed : List (ℕ × Departure)) : List ℕ :=
  (departed.filter fun d => d.2 = .received).map Prod.fst

/-- Events reach the strategy in the order in which they were routed. -/
def Ordered (s : StrategyQueue) : Prop := (received s.departed).Pairwise (· < ·)

instance (s : StrategyQueue) : Decidable s.Ordered :=
  inferInstanceAs (Decidable ((received s.departed).Pairwise (· < ·)))

/-- The first event of a symbol among those at the places. -/
def firstOf (log : List BusEvent) (symbol : String) (places : List ℕ) : Option BusEvent :=
  (places.filterMap fun j => log[j]?).find? fun e => e.symbol = symbol

/-- After a dropped event the next event of its symbol that reaches the strategy is a gap marker. -/
def Visible (s : StrategyQueue) : Prop :=
  ∀ before i after, s.departed = before ++ (i, .dropped) :: after →
    ∀ e ∈ s.log[i]?, ∀ e' ∈ firstOf s.log e.symbol (received after), e'.Marks e.symbol

/-! ### The condition -/

/-- The puts that have not been made. -/
def pending (s : StrategyQueue) : List ℕ := s.ready.map Ready.place ++ s.putters

/-- The next event of the same symbol in the log. -/
def nextOf (log : List BusEvent) (i : ℕ) : Option BusEvent :=
  (log[i]?).bind fun e => (log.drop (i + 1)).find? fun e' => e'.symbol = e.symbol

/-- When there is a next event of the symbol, it is a gap marker. -/
def Announced (log : List BusEvent) (i : ℕ) : Prop :=
  ∀ e ∈ log[i]?, ∀ e' ∈ nextOf log i, e'.Marks e.symbol

/-- No put is made while an older one has yet to be; no event is dropped or enqueued that makes the
next event after a dropped one something else than a gap marker. -/
def Safe (s : StrategyQueue) : QueueInput → Prop
  | .bus =>
      match s.bus with
      | .dropOldest :: _ => ∀ i ∈ s.items.head?, Announced s.log i
      | .enqueue event :: _ => ∀ i, (i, .dropped) ∈ s.departed → nextOf s.log i = none →
          ∀ e ∈ s.log[i]?, e.symbol = event.symbol → event.Marks event.symbol
      | _ => True
  | .loop =>
      match s.ready with
      | .resume i :: rest => s.full D ∨ ∀ p ∈ rest.map Ready.place ++ s.putters, i < p
      | _ => True
  | _ => True

variable {D} {s : StrategyQueue}

/-! ### The invariant -/

structure Inv (s : StrategyQueue) : Prop where
  sorted : (s.departed.map Prod.fst ++ s.items).Pairwise (· < ·)
  ahead : ∀ i ∈ s.departed.map Prod.fst ++ s.items, ∀ p ∈ s.pending, i < p
  cover : ∀ p, p < s.log.length ↔ p ∈ s.departed.map Prod.fst ++ s.items ∨ p ∈ s.pending
  announced : ∀ i, (i, .dropped) ∈ s.departed → Announced s.log i

/-- The places move along; a newly dropped event is announced. -/
theorem Inv.of_moved {t : StrategyQueue} (h : Inv s) (hlog : t.log = s.log)
    (hplaces : t.departed.map Prod.fst ++ t.items = s.departed.map Prod.fst ++ s.items)
    (hpending : ∀ p, p ∈ t.pending ↔ p ∈ s.pending)
    (hannounced : ∀ i, (i, .dropped) ∈ t.departed → Announced s.log i) : Inv t where
  sorted := by
    rw [hplaces]
    exact h.sorted
  ahead i hi p hp := h.ahead i (hplaces ▸ hi) p ((hpending p).mp hp)
  cover p := by
    rw [hlog, hplaces, hpending]
    exact h.cover p
  announced i hi := by
    rw [hlog]
    exact hannounced i hi

theorem Inv.getNowait (h : Inv s) (how : Departure)
    (hdrop : how = .dropped → ∀ i ∈ s.items.head?, Announced s.log i) :
    Inv (s.getNowait how) := by
  unfold StrategyQueue.getNowait
  cases hitems : s.items with
  | nil => exact h
  | cons i items =>
      refine h.of_moved rfl ?_ ?_ ?_
      · simp [hitems]
      · intro p
        simp only [pending, List.map_append, List.map_map, List.mem_append, List.append_assoc]
        have hwoken : (s.putters.take 1).map (Ready.place ∘ Ready.resume) = s.putters.take 1 :=
          List.map_id _
        rw [hwoken, ← List.mem_append (s := s.putters.take 1), List.take_append_drop]
      · intro j hj
        rcases List.mem_append.mp hj with hj | hj
        · exact h.announced j hj
        · obtain ⟨rfl, rfl⟩ := Prod.mk.inj (List.mem_singleton.mp hj)
          exact hdrop rfl j (by rw [hitems]; rfl)

theorem announced_append {log : List BusEvent} {event : BusEvent} {i : ℕ} (hi : i < log.length)
    (h : Announced log i)
    (hnew : nextOf log i = none → ∀ e ∈ log[i]?, e.symbol = event.symbol →
      event.Marks event.symbol) : Announced (log ++ [event]) i := by
  intro e he e' he'
  rw [List.getElem?_append_left hi] at he
  have hlog : nextOf (log ++ [event]) i =
      (nextOf log i).or (if event.symbol = e.symbol then some event else none) := by
    simp only [nextOf, List.getElem?_append_left hi, Option.mem_def.mp he, Option.bind_some]
    rw [List.drop_append_of_le_length hi, List.find?_append]
    by_cases hsymbol : event.symbol = e.symbol
    · simp [hsymbol]
    · simp [hsymbol]
  rw [hlog] at he'
  cases hnext : nextOf log i with
  | some e'' =>
      rw [hnext] at he'
      cases he'
      exact h e he _ hnext
  | none =>
      rw [hnext, Option.none_or] at he'
      split at he'
      · next hsymbol =>
          cases he'
          rw [← hsymbol]
          exact hnew hnext e he hsymbol.symm
      · cases he'

theorem Inv.enqueue {event : BusEvent} (h : Inv s)
    (hnew : ∀ i, (i, .dropped) ∈ s.departed → nextOf s.log i = none →
      ∀ e ∈ s.log[i]?, e.symbol = event.symbol → event.Marks event.symbol) :
    Inv (s.enqueue event) where
  sorted := h.sorted
  ahead i hi p hp := by
    simp only [pending, StrategyQueue.enqueue, List.map_append, List.mem_append, List.map_cons,
      List.map_nil, List.mem_singleton] at hp
    rcases hp with (hp | rfl) | hp
    · exact h.ahead i hi p (List.mem_append_left _ hp)
    · exact (h.cover i).mpr (.inl hi)
    · exact h.ahead i hi p (List.mem_append_right _ hp)
  cover p := by
    have hcover := h.cover p
    simp only [pending, StrategyQueue.enqueue, List.map_append, List.mem_append, List.map_cons,
      List.map_nil, List.mem_singleton, List.length_append, List.length_singleton,
      Ready.place] at hcover ⊢
    constructor
    · intro hp
      rcases Nat.lt_succ_iff_lt_or_eq.mp hp with hp | hp
      · rcases hcover.mp hp with hp | hp | hp
        · exact .inl hp
        · exact .inr (.inl (.inl hp))
        · exact .inr (.inr hp)
      · exact .inr (.inl (.inr hp))
    · rintro (hp | (hp | rfl) | hp)
      · exact Nat.lt_succ_of_lt (hcover.mpr (.inl hp))
      · exact Nat.lt_succ_of_lt (hcover.mpr (.inr (.inl hp)))
      · exact Nat.lt_succ_self _
      · exact Nat.lt_succ_of_lt (hcover.mpr (.inr (.inr hp)))
  announced i hi :=
    announced_append
      ((h.cover i).mpr (.inl (List.mem_append_left _ (List.mem_map_of_mem hi))))
      (h.announced i hi) (hnew i hi)

theorem Inv.loop {i : ℕ} {rest : List Ready} (h : Inv s) (hready : s.ready = .resume i :: rest)
    (hsafe : s.full D ∨ ∀ p ∈ rest.map Ready.place ++ s.putters, i < p) :
    Inv ({ s with ready := rest }.put D i) := by
  have hpending : s.pending = i :: (rest.map Ready.place ++ s.putters) := by
    rw [pending, hready]
    rfl
  have hi : i ∈ s.pending := by
    rw [hpending]
    exact List.mem_cons_self
  by_cases hfull : s.full D
  · have hput : { s with ready := rest }.put D i =
        { s with ready := rest, putters := s.putters ++ [i] } := if_pos hfull
    rw [hput]
    refine h.of_moved rfl rfl ?_ h.announced
    intro p
    rw [hpending, pending]
    simp only [List.mem_append, List.mem_cons, List.not_mem_nil, or_false]
    tauto
  · have hput : { s with ready := rest }.put D i =
        { s with ready := rest, items := s.items ++ [i] } := if_neg hfull
    rw [hput]
    have hfirst := hsafe.resolve_left hfull
    refine ⟨?_, ?_, ?_, h.announced⟩
    · rw [← List.append_assoc, List.pairwise_append]
      refine ⟨h.sorted, List.pairwise_singleton _ _, ?_⟩
      intro j hj k hk
      cases List.mem_singleton.mp hk
      exact h.ahead j hj i hi
    · intro j hj p hp
      rw [← List.append_assoc] at hj
      rcases List.mem_append.mp hj with hj | hj
      · refine h.ahead j hj p ?_
        rw [hpending]
        exact List.mem_cons_of_mem _ hp
      · cases List.mem_singleton.mp hj
        exact hfirst p hp
    · intro p
      rw [h.cover p, hpending, pending]
      simp only [List.mem_append, List.mem_cons, List.not_mem_nil, or_false]
      tauto

theorem Inv.step (h : Inv s) (e : QueueInput) (hsafe : s.Safe D e) : Inv (step D s e).1 := by
  cases e with
  | deliver event now =>
      unfold StrategyQueue.step
      dsimp only
      split
      · exact h.of_moved rfl rfl (fun _ => Iff.rfl) h.announced
      · exact h
  | bus =>
      have hsame : ∀ rest, Inv { s with bus := rest } := fun rest =>
        h.of_moved rfl rfl (fun _ => Iff.rfl) h.announced
      cases hbus : s.bus with
      | nil =>
          simp only [StrategyQueue.step, hbus]
          exact h
      | cons a rest =>
          simp only [Safe, hbus] at hsafe
          cases a with
          | testSize event now =>
              simp only [StrategyQueue.step, hbus]
              exact hsame _
          | dropOldest =>
              simp only [StrategyQueue.step, hbus]
              exact (hsame rest).getNowait .dropped fun _ => hsafe
          | enqueue event =>
              simp only [StrategyQueue.step, hbus]
              exact (hsame rest).enqueue hsafe
  | loop =>
      cases hready : s.ready with
      | nil =>
          simp only [StrategyQueue.step, hready]
          exact h
      | cons r rest =>
          simp only [Safe, hready] at hsafe
          cases r with
          | create i =>
              simp only [StrategyQueue.step, hready]
              refine h.of_moved rfl rfl ?_ h.announced
              intro p
              rw [pending, pending, hready]
              simp only [List.map_append, List.map_cons, List.map_nil, List.mem_append,
                List.mem_cons, List.not_mem_nil, or_false, Ready.place]
              tauto
          | resume i =>
              simp only [StrategyQueue.step, hready]
              exact h.loop hready hsafe
  | get => exact h.getNowait .received fun hdrop => by cases hdrop

/-! ### The result -/

theorem Inv.departed_sorted (h : Inv s) : (s.departed.map Prod.fst).Pairwise (· < ·) :=
  (List.pairwise_append.mp h.sorted).1

theorem Inv.ordered (h : Inv s) : s.Ordered :=
  h.departed_sorted.sublist (List.filter_sublist.map _)

/-- Whatever was scheduled before an event that has left the queue has left it too. -/
theorem Inv.departed_of_le {j n : ℕ} (h : Inv s) (hj : j ∈ s.departed.map Prod.fst) (hle : n ≤ j) :
    n ∈ s.departed.map Prod.fst := by
  have hjlt : j < s.log.length := (h.cover j).mpr (.inl (List.mem_append_left _ hj))
  rcases (h.cover n).mp (lt_of_le_of_lt hle hjlt) with hn | hn
  · rcases List.mem_append.mp hn with hn | hn
    · exact hn
    · exact absurd ((List.pairwise_append.mp h.sorted).2.2 j hj n hn) (not_lt.mpr hle)
  · exact absurd (h.ahead j (List.mem_append_left _ hj) n hn) (not_lt.mpr hle)

theorem exists_nextOf {log : List BusEvent} {i j : ℕ} {e e' : BusEvent} (hij : i < j)
    (he : log[i]? = some e) (he' : log[j]? = some e') (hsymbol : e'.symbol = e.symbol) :
    ∃ n e'', i < n ∧ n ≤ j ∧ log[n]? = some e'' ∧ e''.symbol = e.symbol ∧
      nextOf log i = some e'' := by
  have hnext : nextOf log i = (log.drop (i + 1)).find? fun e' => e'.symbol = e.symbol := by
    rw [nextOf, he, Option.bind_some]
  have hdrop : ∀ k, (log.drop (i + 1))[k]? = log[i + 1 + k]? := fun k => List.getElem?_drop
  have hmem : e' ∈ log.drop (i + 1) := by
    refine List.mem_of_getElem? (i := j - (i + 1)) ?_
    rw [hdrop, ← he']
    congr 1
    omega
  have hsome : ((log.drop (i + 1)).find? fun e' => e'.symbol = e.symbol).isSome = true :=
    List.find?_isSome.mpr ⟨e', hmem, decide_eq_true hsymbol⟩
  obtain ⟨e'', he''⟩ := Option.isSome_iff_exists.mp hsome
  obtain ⟨hsymbol'', k, hk, hget, hbefore⟩ := List.find?_eq_some_iff_getElem.mp he''
  refine ⟨i + 1 + k, e'', by omega, ?_, ?_, of_decide_eq_true hsymbol'', hnext.trans he''⟩
  · by_contra hlt
    have hlen : j - (i + 1) < k := by omega
    have hearlier := hbefore _ hlen
    have hget' : (log.drop (i + 1))[j - (i + 1)]? = some e' := by
      rw [hdrop, ← he']
      congr 1
      omega
    rw [List.getElem?_eq_getElem (hlen.trans hk), Option.some_inj] at hget'
    rw [hget'] at hearlier
    simp [hsymbol] at hearlier
  · rw [← hdrop, List.getElem?_eq_getElem hk, hget]

/-- The first event of its symbol that is received after a dropped one is a gap marker: the next
event of the symbol is one, and when that has been dropped too the next one after it is. -/
theorem Inv.marks (h : Inv s) {i j : ℕ} {e e' : BusEvent} (hij : i < j)
    (hi : (i, .dropped) ∈ s.departed) (hj : j ∈ s.departed.map Prod.fst) (he : s.log[i]? = some e)
    (he' : s.log[j]? = some e') (hsymbol : e'.symbol = e.symbol)
    (hfirst : ∀ k, i < k → k < j → (k, .received) ∈ s.departed →
      ∀ e'' ∈ s.log[k]?, e''.symbol ≠ e.symbol) : e'.Marks e.symbol := by
  induction hm : j - i using Nat.strong_induction_on generalizing i e with
  | _ m ih =>
      obtain ⟨n, e'', hin, hnj, hn, hsymbol'', hnext⟩ := exists_nextOf hij he he' hsymbol
      rcases hnj.eq_or_lt with rfl | hlt
      · rw [he'] at hn
        cases hn
        exact h.announced i hi e he _ hnext
      · obtain ⟨⟨n', how⟩, hmem, rfl⟩ := List.mem_map.mp (h.departed_of_le hj hnj)
        cases how with
        | received => exact absurd hsymbol'' (hfirst _ hin hlt hmem e'' hn)
        | dropped =>
            rw [← hsymbol'']
            refine ih (j - n') (by omega) hlt hmem hn (hsymbol.trans hsymbol''.symm) ?_ rfl
            intro k hk hkj hreceived
            rw [hsymbol'']
            exact hfirst k (hin.trans hk) hkj hreceived

theorem firstOf_eq_some {log : List BusEvent} {symbol : String} {e : BusEvent} :
    ∀ {places : List ℕ}, firstOf log symbol places = some e →
      ∃ before j after, places = before ++ j :: after ∧ log[j]? = some e ∧ e.symbol = symbol ∧
        ∀ k ∈ before, ∀ e' ∈ log[k]?, e'.symbol ≠ symbol := by
  intro places
  induction places with
  | nil => exact fun h => by cases h
  | cons j places ih =>
      intro h
      cases hj : log[j]? with
      | none =>
          have hrest : firstOf log symbol places = some e := by
            simpa only [firstOf, List.filterMap_cons, hj] using h
          obtain ⟨before, j', after, hplaces, hj', hsymbol, hbefore⟩ := ih hrest
          refine ⟨j :: before, j', after, by rw [hplaces]; rfl, hj', hsymbol, ?_⟩
          intro k hk
          rcases List.mem_cons.mp hk with rfl | hk
          · intro e' he'
            rw [hj] at he'
            cases he'
          · exact hbefore k hk
      | some e₀ =>
          simp only [firstOf, List.filterMap_cons, hj, List.find?_cons] at h
          by_cases hsymbol : e₀.symbol = symbol
          · simp only [hsymbol, decide_true, Option.some_inj] at h
            subst h
            exact ⟨[], j, places, rfl, hj, hsymbol, fun k hk => absurd hk List.not_mem_nil⟩
          · simp only [hsymbol, decide_false] at h
            obtain ⟨before, j', after, hplaces, hj', hsymbol', hbefore⟩ := ih h
            refine ⟨j :: before, j', after, by rw [hplaces]; rfl, hj', hsymbol', ?_⟩
            intro k hk
            rcases List.mem_cons.mp hk with rfl | hk
            · intro e' he'
              rw [hj] at he'
              cases he'
              exact hsymbol
            · exact hbefore k hk

theorem mem_received {departed : List (ℕ × Departure)} {j : ℕ} :
    j ∈ received departed ↔ (j, .received) ∈ departed := by
  simp only [received, List.mem_map, List.mem_filter, decide_eq_true_eq]
  constructor
  · rintro ⟨⟨k, how⟩, ⟨hmem, rfl⟩, rfl⟩
    exact hmem
  · intro hmem
    exact ⟨_, ⟨hmem, rfl⟩, rfl⟩

theorem Inv.visible (h : Inv s) : s.Visible := by
  intro before i after hsplit e he e' he'
  obtain ⟨pre, j, post, hreceived, hj, hsymbol, hpre⟩ := firstOf_eq_some he'
  have hsorted := h.departed_sorted
  have hall : ∀ d ∈ s.departed, d ∈ before ∨ d = (i, .dropped) ∨ d ∈ after := by
    intro d hd
    rwa [hsplit, List.mem_append, List.mem_cons] at hd
  rw [hsplit, List.map_append, List.map_cons, List.pairwise_append] at hsorted
  obtain ⟨-, hafter, hbefore⟩ := hsorted
  rw [List.pairwise_cons] at hafter
  -- What is received after the drop comes in order, too.
  have hlater : (pre ++ j :: post).Pairwise (· < ·) := by
    rw [← hreceived]
    exact hafter.2.sublist (List.filter_sublist.map _)
  have hjmem : (j, .received) ∈ after := by
    rw [← mem_received, hreceived]
    exact List.mem_append_right _ List.mem_cons_self
  have hdeparted : ∀ d ∈ after, d ∈ s.departed := by
    intro d hd
    rw [hsplit]
    exact List.mem_append_right _ (List.mem_cons_of_mem _ hd)
  refine h.marks (hafter.1 j (List.mem_map_of_mem hjmem)) ?_
    (List.mem_map_of_mem (hdeparted _ hjmem)) he hj hsymbol ?_
  · rw [hsplit]
    exact List.mem_append_right _ List.mem_cons_self
  · intro k hik hkj hk
    rcases hall _ hk with hk | hk | hk
    · have hki : k < i := hbefore k (List.mem_map_of_mem hk) i List.mem_cons_self
      exact absurd hik (not_lt.mpr hki.le)
    · cases hk
    · rw [← mem_received, hreceived] at hk
      rcases List.mem_append.mp hk with hk | hk
      · exact hpre k hk
      · rcases List.mem_cons.mp hk with rfl | hk
        · exact absurd hkj (lt_irrefl _)
        · have hjk := (List.pairwise_cons.mp (List.pairwise_append.mp hlater).2.1).1 k hk
          exact absurd hkj (not_lt.mpr hjk.le)

theorem inv_start : Inv {} where
  sorted := List.Pairwise.nil
  ahead i hi := absurd hi List.not_mem_nil
  cover p := by simp [pending]
  announced i hi := absurd hi List.not_mem_nil

/-- In every run in which no put overtakes another, and in which whatever is dropped is followed
among the events of its symbol by a gap marker, events reach the strategy in order and it sees what
it has missed. -/
theorem ordered_visible (D : QueueDepth) (es : List QueueInput)
    (hsafe : Along (step D) (Safe D) {} es) :
    (final (step D) {} es).Ordered ∧ (final (step D) {} es).Visible := by
  have hinv : Inv (final (step D) {} es) :=
    final_invariant_along (I := Inv) (fun s e h hok => h.step e hok) es inv_start hsafe
  exact ⟨hinv.ordered, hinv.visible⟩

/-- The inputs of a bar that finds room: the bus tests and enqueues, the loop makes the put. -/
def routeInputs (event : BusEvent) : List QueueInput :=
  [.deliver event 0, .bus, .bus, .loop, .loop]

/-- The inputs of a bar that finds the queue at its depth: the bus tests, drops and enqueues, the
loop makes both puts. -/
def overflowInputs (event : BusEvent) : List QueueInput :=
  [.deliver event 0, .bus, .bus, .bus, .bus, .bus, .loop, .loop, .loop, .loop]

def barEvent (ts : ℤ) : BusEvent := .barClose (Strategy.sampleBar "1m" ts)

def gapEvent : BusEvent := .gap ⟨"kucoin", "BTC", "external_disconnect", 0⟩

/-- An overflow of a queue for two drops a bar and the gap marker behind it for another one. -/
theorem ordered_visible_announced :
    (final (step ⟨2, 2⟩) {} (routeInputs (barEvent 1) ++ routeInputs gapEvent ++
      overflowInputs gapEvent ++ [.get, .get])).Ordered ∧
    (final (step ⟨2, 2⟩) {} (routeInputs (barEvent 1) ++ routeInputs gapEvent ++
      overflowInputs gapEvent ++ [.get, .get])).Visible := by
  have hmarks : gapEvent.Marks "BTC" := BusEvent.marks_iff.mpr ⟨_, rfl, rfl⟩
  refine ordered_visible ⟨2, 2⟩ _ ?_
  simp only [routeInputs, overflowInputs, List.cons_append, List.nil_append, along_cons, along_nil,
    and_true]
  refine ⟨trivial, trivial, ?_, trivial, .inr (by decide), trivial, trivial, ?_, trivial,
    .inr (by decide), trivial, trivial, ?_, ?_, ?_, ?_, trivial, trivial, .inr (by decide),
    .inr (by decide), trivial, trivial⟩
  · intro i hi
    cases hi
  · intro i hi
    cases hi
  · intro i hi e he e' he'
    cases hi
    cases he
    cases he'
    exact hmarks
  · intro i hi e he e' he'
    cases hi
    cases he'
  · intro i hi _ e he hsymbol
    have hdropped : (i, Departure.dropped) ∈ [(0, Departure.dropped), (1, .dropped)] := hi
    simp only [List.mem_cons, List.not_mem_nil, or_false, Prod.mk.injEq, and_true] at hdropped
    rcases hdropped with rfl | rfl
    · cases he
      exact absurd hsymbol (by decide)
    · cases he
      exact absurd hsymbol (by decide)
  · exact fun _ _ _ _ _ _ => hmarks

/-- The bars that an overflow drops are followed by a bar: the marker between them names no symbol.
-/
theorem overflow_hides_gap :
    ¬ ((final (step ⟨2, 2⟩) {} (routeInputs (barEvent 1) ++ routeInputs (barEvent 2) ++
      overflowInputs (barEvent 3) ++ [.get, .get])).Ordered ∧
    (final (step ⟨2, 2⟩) {} (routeInputs (barEvent 1) ++ routeInputs (barEvent 2) ++
      overflowInputs (barEvent 3) ++ [.get, .get])).Visible) := by
  rintro ⟨-, hvisible⟩
  have hmarks := hvisible [] 0 [(1, .dropped), (2, .received), (3, .received)] rfl
    (barEvent 1) rfl (barEvent 3) rfl
  obtain ⟨gap, hgap, -⟩ := hmarks
  cases hgap

/-- A put that waits is overtaken by the puts of a later overflow. -/
example : ¬ (final (step ⟨1, 1⟩) {} (routeInputs (barEvent 1) ++ overflowInputs (barEvent 2) ++
    overflowInputs (barEvent 3) ++ [.loop, .deliver (barEvent 4) 0, .bus, .bus, .bus, .bus, .bus,
      .loop, .loop, .loop, .get, .loop, .loop, .loop, .get, .loop, .get, .loop, .get])).Ordered := by
  decide

end StrategyQueue
end MagnumOpus.Bot
