import Mathlib.Tactic.Ring
import MagnumOpus.Bot.ServiceSteps

/-! # The daily loss

The circuit breaker over the days.  The days go by beside the service (`DayEvent`); each leaves its
entries, the profits of the fills when they are booked and the midnights (`DayEntry`), and the
profit of a day is what its entries say (`dayPnl`).

* **No reset.** `reset_for_new_day` (`circuit_breaker.py`) is there, but nothing calls it: a
  midnight leaves the service as it is.
* **Rows first.** A fill is booked at once, and comes to the breaker when its row has been written,
  which may be on the next day.
* **After a trip.** A worker that has tripped the breaker keeps its later profits to itself, and
  one whose thread has ended those that it has still to write.

What the breaker was not told of the day, less what it still counts of the days before, is what it
is off by (`Days.due`).  It tells the loss of the day in all states of a run exactly when no step
brings this amount over the limit (`isTripped_iff_dayPnl`). -/

namespace MagnumOpus.Bot

open EventMachine KeyedSum

namespace CircuitBreaker

/-- The day that is tracked, and the breaker; the total is cleared on another day. -/
def resetForNewDay (b : CircuitBreaker) (trackingDate : Option ℤ) (today : ℤ) :
    CircuitBreaker × Option ℤ :=
  if some today ≠ trackingDate then ({ b with dailyPnl := 0 }, some today) else (b, trackingDate)

theorem isTripped_resetForNewDay (b : CircuitBreaker) {trackingDate : Option ℤ} {today : ℤ}
    (h : some today ≠ trackingDate) :
    (b.resetForNewDay trackingDate today).1.isTripped = false := by
  rw [resetForNewDay, if_pos h, isTripped, decide_eq_false_iff_not]
  rintro ⟨-, hlt⟩
  exact absurd (neg_nonpos.mpr (abs_nonneg b.limitUsd)) (not_le.mpr hlt)

end CircuitBreaker

namespace OrderQueueWorker

/-- Only a fill whose row has been written is reported to the breaker. -/
theorem recordPnl_not_mem_step (w : OrderQueueWorker) {i : Input} (h : ∀ k, i ≠ .booked k)
    (pnl : ℚ) : .recordPnl pnl ∉ (step w i).2 := by
  cases i with
  | booked k => exact absurd rfl (h k)
  | post req => exact List.not_mem_nil
  | cancel => exact List.not_mem_nil
  | fill f =>
      simp only [step, handleFill]
      split
      · exact List.not_mem_nil
      · split <;> simp
  | take =>
      simp only [step]
      split
      · unfold process
        split <;> simp
      · exact List.not_mem_nil
  | response r =>
      simp only [step]
      split
      · cases r with
        | returned p =>
            simp only [placed]
            split <;> simp
        | _ => simp [placed]
      · exact List.not_mem_nil
  | _ =>
      simp only [step]
      split <;> exact List.not_mem_nil

/-- The realised profit of a fill that the worker books. -/
def fillProfit (w : OrderQueueWorker) (f : OrderFilled) : Option ℚ :=
  if f.orderId ∈ w.seenFillIds then none
  else (w.openOrders.lookup f.orderId).map fun _ =>
    (w.updatePosition f.symbol f.side f.fillSize f.fillPrice).2

/-- It is what the handling of the fill hands to the breaker. -/
theorem bookings_fill (w : OrderQueueWorker) (f : OrderFilled) :
    (step w (.fill f)).1.bookings = w.bookings ++ (w.fillProfit f).toList := by
  simp only [step, handleFill, fillProfit]
  split
  · exact (List.append_nil _).symm
  · cases w.openOrders.lookup f.orderId with
    | none => exact (List.append_nil _).symm
    | some o => cases f.side <;> rfl

end OrderQueueWorker

/-! ### Days -/

/-- Something that happens while the days go by. -/
inductive DayEvent where
  | service (e : ServiceEvent)
  /-- A day ends in UTC. -/
  | midnight

/-- An entry of the account of the days. -/
inductive DayEntry where
  | fill (realizedPnl : ℚ)
  | midnight
deriving DecidableEq

/-- The profit of the day after one more entry. -/
def addEntry (total : ℚ) : DayEntry → ℚ
  | .fill realizedPnl => total + realizedPnl
  | .midnight => 0

/-- The profit of all fills since the last midnight. -/
def dayPnl (entries : List DayEntry) : ℚ := entries.foldl addEntry 0

/-- The service on a day. -/
structure Days where
  service : Service
  /-- What the fills whose rows an instance has still to write add to the profit of the day: nothing
  when they are from a day before. -/
  unwritten : ℕ → List ℚ
  /-- The profit of the day that the breaker was not told. -/
  untold : ℚ
  /-- The profit of the days before that the breaker counts. -/
  carried : ℚ

namespace Days

def start (limitUsd : ℚ) : Days := ⟨.new limitUsd, fun _ => [], 0, 0⟩

def breaker (d : Days) : CircuitBreaker := d.service.breaker

/-- What the breaker is off by. -/
def due (d : Days) : ℚ := d.untold - d.carried

/-- A new instance has no fills of the day. -/
def serve (d : Days) (e : ServiceEvent) : Days :=
  let service := (d.service.step e).1
  { d with
    service
    unwritten := fun i =>
      if i < d.service.instances.length then d.unwritten i
      else service.instances[i]?.elim [] fun inst => inst.worker.bookings.map fun _ => 0 }

/-- A fill has been booked. -/
def filled (d : Days) (i : ℕ) (pnl : ℚ) : Days :=
  { d with
    unwritten := Function.update d.unwritten i (d.unwritten i ++ [pnl])
    untold := d.untold + pnl }

/-- A row has been written; `told` is what the breaker is told. -/
def written (d : Days) (i k : ℕ) (told : Option ℚ) : Days :=
  let rest := { d with unwritten := Function.update d.unwritten i ((d.unwritten i).eraseIdx k) }
  match told with
  | none => rest
  | some pnl =>
      let today := (d.unwritten i)[k]?.getD 0
      { rest with untold := d.untold - today, carried := d.carried + (pnl - today) }

def endDay (d : Days) : Days :=
  { d with
    unwritten := fun i => (d.unwritten i).map fun _ => 0
    untold := 0
    carried := d.breaker.dailyPnl }

def dayStep : Step Days DayEvent DayEntry := fun d e =>
  match e with
  | .midnight => (d.endDay, [.midnight])
  | .service (.worker i (.fill f)) =>
      let served := d.serve (.worker i (.fill f))
      match (d.service.acting i).bind (·.worker.fillProfit f) with
      | none => (served, [])
      | some pnl => (served.filled i pnl, [.fill pnl])
  | .service (.worker i (.booked k)) =>
      let served := d.serve (.worker i (.booked k))
      match d.service.acting i with
      | none => (served, [])
      | some inst =>
          match inst.worker.bookings[k]? with
          | none => (served, [])
          | some pnl => (served.written i k (if inst.worker.tripFired then none else some pnl), [])
  | .service e => (d.serve e, [])

/-- A day ends with a breaker that is not tripped; a fill that is booked leaves the verdict that
the breaker would give if it were off by nothing; and so does one that it is told of. -/
def KeepsVerdict (d : Days) : DayEvent → Prop
  | .midnight => d.breaker.isTripped = false
  | .service (.worker i (.fill f)) => ∀ pnl ∈ (d.service.acting i).bind (·.worker.fillProfit f),
      (d.breaker.recordPnl (d.due + pnl)).isTripped = d.breaker.isTripped
  | .service (.worker i (.booked k)) => ∀ inst ∈ d.service.acting i,
      inst.worker.tripFired = false → ∀ pnl ∈ inst.worker.bookings[k]?,
        (d.breaker.recordPnl pnl).isTripped = (d.breaker.recordPnl d.due).isTripped
  | .service _ => True

end Days

namespace Service

variable {s : Service} {i : ℕ}

/-! ### The breaker at each event -/

theorem breaker_recordPnls_of_none : ∀ (effects : List OrderEffect) (s : Service),
    (∀ pnl, .recordPnl pnl ∉ effects) → (s.recordPnls i effects).breaker = s.breaker
  | [], _, _ => rfl
  | .recordPnl pnl :: _, _, h => absurd List.mem_cons_self (h pnl)
  | .placeOrder _ :: effects, s, h =>
      breaker_recordPnls_of_none effects s fun pnl hp => h pnl (List.mem_cons_of_mem _ hp)
  | .writeOrderEvent _ :: effects, s, h =>
      breaker_recordPnls_of_none effects s fun pnl hp => h pnl (List.mem_cons_of_mem _ hp)

theorem breaker_recordPnls_one (s : Service) (i : ℕ) (pnl : ℚ) :
    (s.recordPnls i [.recordPnl pnl]).breaker = s.breaker.recordPnl pnl := by
  simp only [recordPnls]
  split <;> rfl

theorem breaker_booked {inst : Instance} (hacting : s.acting i = some inst) (k : ℕ) :
    (s.stepWorker i (.booked k)).1.breaker =
      if inst.worker.tripFired then s.breaker
      else inst.worker.bookings[k]?.elim s.breaker s.breaker.recordPnl := by
  simp only [stepWorker, hacting, heed, OrderQueueWorker.step]
  cases inst.worker.bookings[k]? with
  | none => exact (ite_self _).symm
  | some pnl =>
      cases inst.worker.tripFired with
      | false => exact breaker_recordPnls_one _ i pnl
      | true => rfl

theorem breaker_step {e : ServiceEvent} (h : ∀ i k, e ≠ .worker i (.booked k)) :
    (s.step e).1.breaker = s.breaker := by
  cases e with
  | worker i input =>
      simp only [step, stepWorker]
      cases s.acting i with
      | none => rfl
      | some inst =>
          have hne : ∀ k, heed inst input ≠ .booked k := by
            intro k
            cases input with
            | booked k' => exact absurd rfl (h i k')
            | _ => simp [heed]
          exact breaker_recordPnls_of_none _ _ (inst.worker.recordPnl_not_mem_step hne)
  | stopNext i =>
      simp only [step]
      unfold stopNext
      split
      · rfl
      · rfl
      · split
        · rfl
        · simp only
          split <;> rfl
  | exit i =>
      simp only [step]
      split <;> rfl
  | unload name =>
      simp only [step, unload]
      split <;> rfl
  | load name worker =>
      simp only [step]
      split <;> rfl
  | crash name =>
      simp only [step]
      split <;> rfl
  | restart name worker =>
      simp only [step]
      split
      · split <;> rfl
      · rfl

end Service

namespace Days

/-! ### The profit of the day -/

variable {d : Days} {e : DayEvent}

/-- What a step does to the breaker and to what it is off by, and the entries that it leaves. -/
inductive Moved (d : Days) (e : DayEvent) : CircuitBreaker → ℚ → List DayEntry → Prop
  | midnight (he : e = .midnight) : Moved d e d.breaker (-d.breaker.dailyPnl) [.midnight]
  | fill {i : ℕ} {f : OrderFilled} {pnl : ℚ} (he : e = .service (.worker i (.fill f)))
      (hpnl : (d.service.acting i).bind (·.worker.fillProfit f) = some pnl) :
      Moved d e d.breaker (d.due + pnl) [.fill pnl]
  | told {i k : ℕ} {inst : Instance} {pnl : ℚ} (he : e = .service (.worker i (.booked k)))
      (hacting : d.service.acting i = some inst) (hfired : inst.worker.tripFired = false)
      (hpnl : inst.worker.bookings[k]? = some pnl) :
      Moved d e (d.breaker.recordPnl pnl) (d.due - pnl) []
  | stays (h : d.KeepsVerdict e) : Moved d e d.breaker d.due []

theorem moved_booked (d : Days) (i k : ℕ) :
    let r := dayStep d (.service (.worker i (.booked k)))
    Moved d (.service (.worker i (.booked k))) r.1.breaker r.1.due r.2 := by
  cases hacting : d.service.acting i with
  | none =>
      have hbreaker : (d.service.step (.worker i (.booked k))).1.breaker = d.breaker := by
        simp only [Service.step, Service.stepWorker, hacting]
        rfl
      simp only [dayStep, hacting, breaker, serve, due, hbreaker]
      exact .stays fun inst hinst => by rw [hacting] at hinst; cases hinst
  | some inst =>
      have hbreaker := Service.breaker_booked hacting k
      cases hpnl : inst.worker.bookings[k]? with
      | none =>
          have hsame : (d.service.step (.worker i (.booked k))).1.breaker = d.breaker := by
            rw [Service.step, hbreaker, hpnl]
            exact ite_self _
          simp only [dayStep, hacting, hpnl, breaker, serve, due, hsame]
          refine .stays fun inst' hinst' _ pnl' hpnl' => ?_
          rw [hacting] at hinst'
          cases hinst'
          rw [hpnl] at hpnl'
          cases hpnl'
      | some pnl =>
          simp only [dayStep, hacting, hpnl]
          cases hfired : inst.worker.tripFired with
          | true =>
              have hsame : (d.service.step (.worker i (.booked k))).1.breaker = d.breaker := by
                rw [Service.step, hbreaker, hfired]
                rfl
              simp only [if_true, written, breaker, serve, due, hsame]
              refine .stays fun inst' hinst' hfired' => ?_
              rw [hacting] at hinst'
              cases hinst'
              rw [hfired] at hfired'
              cases hfired'
          | false =>
              have htold : (d.service.step (.worker i (.booked k))).1.breaker =
                  d.breaker.recordPnl pnl := by
                rw [Service.step, hbreaker, hfired, hpnl]
                rfl
              have hdue : ((d.serve (.worker i (.booked k))).written i k (some pnl)).due =
                  d.due - pnl := by
                simp only [written, due, serve]
                ring
              simp only [Bool.false_eq_true, if_false, hdue]
              simp only [written, breaker, serve, htold]
              exact .told rfl hacting hfired hpnl

theorem moved_fill (d : Days) (i : ℕ) (f : OrderFilled) :
    let r := dayStep d (.service (.worker i (.fill f)))
    Moved d (.service (.worker i (.fill f))) r.1.breaker r.1.due r.2 := by
  have hbreaker : (d.service.step (.worker i (.fill f))).1.breaker = d.breaker :=
    Service.breaker_step fun _ _ => by simp
  simp only [dayStep]
  cases hpnl : (d.service.acting i).bind (·.worker.fillProfit f) with
  | none =>
      simp only [breaker, serve, due, hbreaker]
      exact .stays fun pnl h => by rw [hpnl] at h; cases h
  | some pnl =>
      have hdue : ((d.serve (.worker i (.fill f))).filled i pnl).due = d.due + pnl := by
        simp only [filled, due, serve]
        ring
      simp only [hdue]
      simp only [filled, breaker, serve, hbreaker]
      exact .fill rfl hpnl

theorem moved_dayStep (d : Days) (e : DayEvent) :
    Moved d e (dayStep d e).1.breaker (dayStep d e).1.due (dayStep d e).2 := by
  cases e with
  | midnight =>
      have hdue : d.endDay.due = -d.breaker.dailyPnl := zero_sub _
      simp only [dayStep, hdue]
      exact .midnight rfl
  | service e =>
      have hother (hkeeps : d.KeepsVerdict (.service e)) (h : ∀ i k, e ≠ .worker i (.booked k)) :
          Moved d (.service e) (d.serve e).breaker (d.serve e).due [] := by
        have hbreaker : (d.serve e).breaker = d.breaker := Service.breaker_step h
        rw [hbreaker]
        exact .stays hkeeps
      cases e with
      | worker i input =>
          cases input with
          | fill f => exact moved_fill d i f
          | booked k => exact moved_booked d i k
          | _ => exact hother trivial fun _ _ => by simp
      | _ => exact hother trivial nofun

/-- **The account.**  The breaker and what it is off by hold the profit of the day. -/
theorem dayPnl_eq (limitUsd : ℚ) (es : List DayEvent) :
    dayPnl (trace dayStep (start limitUsd) es) =
      (final dayStep (start limitUsd) es).breaker.dailyPnl +
        (final dayStep (start limitUsd) es).due := by
  refine seen_invariant (I := fun entries (d : Days) =>
      dayPnl entries = d.breaker.dailyPnl + d.due)
    (by norm_num [dayPnl, start, breaker, due, Service.new, CircuitBreaker.new])
    (fun entries d e hd => ?_) es
  have hmoved := moved_dayStep d e
  rw [dayPnl, List.foldl_append, ← dayPnl, hd]
  generalize (dayStep d e).1.breaker = b, (dayStep d e).1.due = due', (dayStep d e).2 = entries'
    at hmoved
  cases hmoved with
  | midnight => exact (add_neg_cancel _).symm
  | fill => exact add_assoc _ _ _
  | told =>
      simp only [List.foldl_nil, CircuitBreaker.recordPnl]
      ring
  | stays => rfl

theorem limitUsd_run (es : List DayEvent) (d : Days) :
    (final dayStep d es).breaker.limitUsd = d.breaker.limitUsd := by
  refine final_invariant (I := fun t : Days => t.breaker.limitUsd = d.breaker.limitUsd)
    (fun t e ht => ?_) es rfl
  rw [← ht]
  have hmoved := moved_dayStep t e
  generalize (dayStep t e).1.breaker = b, (dayStep t e).1.due = due', (dayStep t e).2 = entries
    at hmoved ⊢
  cases hmoved <;> rfl

/-! ### The verdict -/

/-- The breaker gives the verdict that it would give if it were off by nothing. -/
def Agrees (d : Days) : Prop := d.breaker.isTripped = (d.breaker.recordPnl d.due).isTripped

theorem agrees_iff (limitUsd : ℚ) (es : List DayEvent) :
    ((final dayStep (start limitUsd) es).breaker.isTripped = true ↔
      limitUsd ≠ 0 ∧ dayPnl (trace dayStep (start limitUsd) es) < -|limitUsd|) ↔
    (final dayStep (start limitUsd) es).Agrees := by
  have hlimit : (final dayStep (start limitUsd) es).breaker.limitUsd = limitUsd :=
    limitUsd_run es (start limitUsd)
  have hday : ((final dayStep (start limitUsd) es).breaker.recordPnl
      (final dayStep (start limitUsd) es).due).isTripped = true ↔
        limitUsd ≠ 0 ∧ dayPnl (trace dayStep (start limitUsd) es) < -|limitUsd| := by
    rw [CircuitBreaker.isTripped, decide_eq_true_iff, CircuitBreaker.recordPnl, hlimit, dayPnl_eq]
  rw [← hday]
  exact Bool.eq_iff_iff.symm

/-- A step keeps a right verdict exactly when it meets the condition. -/
theorem agrees_step (h : d.Agrees) : (dayStep d e).1.Agrees ↔ d.KeepsVerdict e := by
  have hmoved := moved_dayStep d e
  unfold Agrees
  generalize (dayStep d e).1.breaker = b, (dayStep d e).1.due = due', (dayStep d e).2 = entries
    at hmoved
  cases hmoved with
  | midnight he =>
      have hzero : (d.breaker.recordPnl (-d.breaker.dailyPnl)).isTripped = false := by
        rw [CircuitBreaker.recordPnl, CircuitBreaker.isTripped, decide_eq_false_iff_not]
        rintro ⟨-, hlt⟩
        rw [add_neg_cancel] at hlt
        exact absurd (neg_nonpos.mpr (abs_nonneg _)) (not_le.mpr hlt)
      rw [he, hzero]
      rfl
  | fill he hpnl =>
      rw [he]
      simp only [KeepsVerdict, hpnl, Option.mem_def, Option.some.injEq, forall_eq']
      exact eq_comm
  | @told i k inst pnl he hacting hfired hpnl =>
      have hadd : (d.breaker.recordPnl pnl).recordPnl (d.due - pnl) =
          d.breaker.recordPnl d.due := by
        simp only [CircuitBreaker.recordPnl, CircuitBreaker.mk.injEq, true_and]
        ring
      rw [he, hadd]
      simp only [KeepsVerdict, hacting, hpnl, Option.mem_def, Option.some.injEq, forall_eq', hfired,
        forall_const]
  | stays hkeeps => exact iff_of_true h hkeeps

theorem agrees_start (limitUsd : ℚ) : (start limitUsd).Agrees := by
  have hnone : (start limitUsd).due = 0 := sub_zero 0
  rw [Agrees, hnone, CircuitBreaker.recordPnl, add_zero]

/-- A strategy that holds one BTC bought at 100 and has an order open to sell it. -/
def holdsOne : OrderQueueWorker :=
  let bought := (OrderQueueWorker.new "s" 1 (.divNat 1000 1) 0).restorePosition "BTCUSDT" 1
    (mkRat 100 1)
  bought.restoreOpenOrder "1" (OrderQueueWorker.tenthOrder "s" .exit .sell)
    ⟨"1", "c1", .placed, 0⟩

/-- The order is filled at 50. -/
def soldAtHalf : List DayEvent :=
  [.service (.load "s" holdsOne),
    .service (.worker 0 (.fill ⟨"1", "bybit", "BTCUSDT", .sell, mkRat 50 1, 1, 0, 0⟩)),
    .service (.worker 0 (.booked 0))]

end Days

end MagnumOpus.Bot
