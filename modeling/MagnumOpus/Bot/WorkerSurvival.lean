import MagnumOpus.Bot.OrderWorkerSteps

/-! # The loop of the order worker

`run` (`order_worker.py`) takes one order after another from the queue and processes it.  It has no
handler of its own, and `_place_and_persist` handles `ExchangeRESTError` only, so any other
exception of `place_order` ends the loop, while strategy and feeds go on (`registry.py`).

* **Taken.** `takes` is the worker with the orders that its loop takes as observations.
* **Turns.** `turnInputs` lets the loop go on: what it awaits is answered, and the strategy has not
  been told to stop.  Between two of its steps orders are posted and fills come in.
* **Survival.** A worker survives (`Survives`) when all that has been or will be posted is taken
  within a number of turns that its place in the queue gives.

The loop survives a run exactly when no exception but `ExchangeRESTError` comes out of
`place_order`. -/

namespace MagnumOpus.Bot.OrderQueueWorker

open EventMachine KeyedSum

variable {w : OrderQueueWorker} {i : Input}

/-! ### Orders taken from the queue -/

/-- The order that a step takes from the queue and processes. -/
def takenBy (w : OrderQueueWorker) (i : Input) : List OrderRequest :=
  match i, w.stage, w.queue with
  | .take, .waiting, req :: _ => [req]
  | _, _, _ => []

/-- The worker and the orders that it takes. -/
def takes : Step OrderQueueWorker Input OrderRequest := fun w i => ((step w i).1, takenBy w i)

theorem final_takes (w : OrderQueueWorker) (is : List Input) :
    final takes w is = final step w is := by
  have h : ∀ (w : OrderQueueWorker) (i : Input), (takes w i).1 = (step w i).1 := fun _ _ => rfl
  exact final_congr h is w

/-! ### Turns of the loop -/

/-- What the loop awaits happens; an answer of `place_order` is `r`. -/
def loopInput (w : OrderQueueWorker) (r : Response) : Input :=
  match w.stage with
  | .top => .check false
  | .waiting => if w.queue = [] then .timeout else .take
  | .placing _ => .response r
  | .reporting => .written
  | .persisting _ _ => .written
  | .ended => .check false

/-- What happens beside the loop. -/
def Beside : Input → Prop
  | .post _ => True
  | .fill _ => True
  | .booked _ => True
  | _ => False

structure Turn where
  /-- What happens before the loop goes on. -/
  others : List Input
  response : Response

structure Turn.Ok (t : Turn) : Prop where
  beside : ∀ i ∈ t.others, Beside i
  not_raised : t.response ≠ .raised

/-- The events of some turns. -/
def turnInputs : OrderQueueWorker → List Turn → List Input
  | _, [] => []
  | w, t :: ts =>
      let v := final step w t.others
      t.others ++ loopInput v t.response :: turnInputs (step v (loopInput v t.response)).1 ts

/-- All that has been posted, and what is posted later, is taken in turn. -/
def Survives (w : OrderQueueWorker) : Prop :=
  ∀ (later : List OrderRequest) (ts : List Turn), (∀ t ∈ ts, t.Ok) →
    let v := final step w (later.map .post)
    4 * v.queue.length + 3 ≤ ts.length → v.queue <+: trace takes v (turnInputs v ts)

/-! ### Beside the loop -/

/-- What happens beside the loop leaves it where it is, and at most adds to the queue. -/
theorem step_beside (h : Beside i) :
    (step w i).1.stage = w.stage ∧ w.queue <+: (step w i).1.queue ∧ takenBy w i = [] := by
  cases i with
  | post req => exact ⟨rfl, List.prefix_append _ _, rfl⟩
  | fill f =>
      obtain ⟨hstage, hqueue⟩ := handleFill_loop w f
      exact ⟨hstage, ⟨[], by rw [List.append_nil]; exact hqueue.symm⟩, rfl⟩
  | booked k =>
      simp only [step]
      cases w.bookings[k]? with
      | none => exact ⟨rfl, List.prefix_refl _, rfl⟩
      | some pnl => exact ⟨rfl, List.prefix_refl _, rfl⟩
  | _ => exact h.elim

theorem final_beside (is : List Input) (w : OrderQueueWorker) (h : ∀ i ∈ is, Beside i) :
    (final step w is).stage = w.stage ∧ w.queue <+: (final step w is).queue ∧
      trace takes w is = [] := by
  induction is generalizing w with
  | nil => exact ⟨rfl, List.prefix_refl _, rfl⟩
  | cons i is ih =>
      obtain ⟨hstage, hqueue, htaken⟩ := step_beside (w := w) (h i List.mem_cons_self)
      obtain ⟨hstage', hqueue', htaken'⟩ :=
        ih (step w i).1 fun j hj => h j (List.mem_cons_of_mem i hj)
      refine ⟨hstage'.trans hstage, hqueue.trans hqueue', ?_⟩
      rw [trace_cons]
      show takenBy w i ++ trace takes (step w i).1 is = []
      rw [htaken, htaken', List.append_nil]

/-! ### Progress -/

/-- The number of steps to the next order. -/
def rank : Stage → ℕ
  | .top => 1
  | .waiting => 0
  | .placing _ => 3
  | .reporting => 2
  | .persisting _ _ => 2
  | .ended => 0

theorem rank_le (s : Stage) : rank s ≤ 3 := by
  cases s <;> simp [rank]

/-- The loop comes closer to the queue, or takes an order from it. -/
inductive LoopStep (w v : OrderQueueWorker) (taken : List OrderRequest) : Prop where
  | closer (hrank : rank v.stage < rank w.stage) (hqueue : v.queue = w.queue) (htaken : taken = [])
  | takes (req : OrderRequest) (hwaiting : w.stage = .waiting) (hqueue : w.queue = req :: v.queue)
      (htaken : taken = [req])

theorem loopStep {r : Response} (hr : r ≠ .raised) (hended : w.stage ≠ .ended)
    (hqueue : w.queue ≠ []) :
    (step w (loopInput w r)).1.stage ≠ .ended ∧
      LoopStep w (step w (loopInput w r)).1 (takenBy w (loopInput w r)) := by
  unfold loopInput
  cases hstage : w.stage with
  | ended => exact absurd hstage hended
  | top =>
      simp only [step, hstage]
      exact ⟨by simp, .closer (by simp [rank, hstage]) rfl rfl⟩
  | waiting =>
      obtain ⟨req, rest, hcons⟩ := List.exists_cons_of_ne_nil hqueue
      have htaken : takenBy w .take = [req] := by simp only [takenBy, hstage, hcons]
      simp only [if_neg hqueue, htaken]
      simp only [step, hstage, hcons, process]
      split
      · exact ⟨by simp, .takes req hstage hcons rfl⟩
      · exact ⟨by simp, .takes req hstage hcons rfl⟩
  | placing req =>
      simp only [step, hstage]
      cases r with
      | raised => exact absurd rfl hr
      | restError => exact ⟨by simp [placed], .closer (by simp [placed, rank, hstage]) rfl rfl⟩
      | returned p =>
          simp only [placed]
          cases p.status with
          | placed => exact ⟨by simp, .closer (by simp [rank, hstage]) rfl rfl⟩
          | rejected => exact ⟨by simp, .closer (by simp [rank, hstage]) rfl rfl⟩
  | reporting =>
      simp only [step, hstage]
      exact ⟨by simp, .closer (by simp [rank, hstage]) rfl rfl⟩
  | persisting req p =>
      simp only [step, hstage]
      exact ⟨by simp [insertOpen], .closer (by simp [rank, hstage, insertOpen]) rfl rfl⟩

/-- **The loop takes the first `n` orders of the queue**, each within four turns. -/
theorem take_prefix_trace (ts : List Turn) : ∀ (w : OrderQueueWorker) (n : ℕ),
    w.stage ≠ .ended → (∀ t ∈ ts, t.Ok) → n ≤ w.queue.length → 4 * n + rank w.stage ≤ ts.length →
      w.queue.take n <+: trace takes w (turnInputs w ts) := by
  induction ts with
  | nil =>
      intro w n _ _ _ hlen
      have hn : n = 0 := by
        rw [List.length_nil] at hlen
        omega
      subst hn
      exact List.nil_prefix
  | cons t ts ih =>
      intro w n hended hts hn hlen
      cases n with
      | zero => exact List.nil_prefix
      | succ n =>
          obtain ⟨hbeside, hraised⟩ := hts t List.mem_cons_self
          obtain ⟨hstage, ⟨more, hqueue⟩, htaken⟩ := final_beside t.others w hbeside
          rw [turnInputs, trace_append, htaken, List.nil_append, final_takes, trace_cons]
          generalize final step w t.others = v at hstage hqueue ⊢
          rw [← hstage] at hended hlen
          have hfront : w.queue.take (n + 1) = v.queue.take (n + 1) := by
            rw [← hqueue, List.take_append_of_le_length hn]
          have hn' : n + 1 ≤ v.queue.length := by
            rw [← hqueue, List.length_append]
            omega
          rw [hfront]
          have hne : v.queue ≠ [] := List.ne_nil_of_length_pos (by omega)
          obtain ⟨hended', hloop⟩ := loopStep hraised hended hne
          rw [List.length_cons] at hlen
          have hts' : ∀ t' ∈ ts, t'.Ok := fun t' ht' => hts t' (List.mem_cons_of_mem t ht')
          show v.queue.take (n + 1) <+: takenBy v (loopInput v t.response) ++
            trace takes (step v (loopInput v t.response)).1 (turnInputs _ ts)
          cases hloop with
          | closer hrank hsame hnone =>
              rw [hnone, List.nil_append, ← hsame]
              exact ih _ (n + 1) hended' hts' (by rw [hsame]; exact hn') (by omega)
          | takes req hwaiting hcons htake =>
              rw [htake, hcons, List.take_succ_cons]
              rw [hcons, List.length_cons] at hn'
              rw [hwaiting] at hlen
              have hle := rank_le (step v (loopInput v t.response)).1.stage
              have hzero : rank .waiting = 0 := rfl
              exact (List.prefix_cons_inj req).mpr
                (ih _ n hended' hts' (by omega) (by omega))

/-! ### The end of the loop -/

theorem step_ended (h : w.stage = .ended) (i : Input) :
    (step w i).1.stage = .ended ∧ takenBy w i = [] := by
  refine ⟨?_, by unfold takenBy; rw [h]; split <;> simp_all⟩
  cases i with
  | fill f => exact (handleFill_loop w f).1.trans h
  | booked k =>
      simp only [step]
      cases w.bookings[k]? <;> exact h
  | _ =>
      first
        | exact h
        | rfl
        | (simp only [step, h])

theorem trace_takes_ended (is : List Input) : ∀ {w : OrderQueueWorker}, w.stage = .ended →
    trace takes w is = [] := by
  induction is with
  | nil => exact fun _ => rfl
  | cons i is ih =>
      intro w h
      obtain ⟨hnext, htaken⟩ := step_ended h i
      rw [trace_cons]
      show takenBy w i ++ trace takes (step w i).1 is = []
      rw [htaken, ih hnext, List.append_nil]

theorem survives_iff_not_ended (w : OrderQueueWorker) : w.Survives ↔ w.stage ≠ .ended := by
  constructor
  · intro h hended
    let later := [tenthOrder w.strategyName .entry .buy]
    let v := final step w (later.map .post)
    have hqueue : v.queue = w.queue ++ later := rfl
    have hquiet : ∀ t ∈ List.replicate (4 * v.queue.length + 3) (Turn.mk [] .restError), t.Ok := by
      intro t ht
      rw [List.eq_of_mem_replicate ht]
      exact ⟨fun i hi => absurd hi List.not_mem_nil, by decide⟩
    have hprefix := h later _ hquiet (List.length_replicate).ge
    rw [trace_takes_ended _ (show v.stage = .ended from hended), List.prefix_nil] at hprefix
    rw [hqueue] at hprefix
    simp [later] at hprefix
  · intro hended later ts hts v hlen
    have hbeside : ∀ i ∈ later.map Input.post, Beside i := by
      intro i hi
      obtain ⟨req, -, rfl⟩ := List.mem_map.mp hi
      trivial
    have hstage : v.stage ≠ .ended := by
      rw [(final_beside _ w hbeside).1]
      exact hended
    have hle := rank_le v.stage
    have htake := take_prefix_trace ts v v.queue.length hstage hts (Nat.le_refl _) (by omega)
    rwa [List.take_length] at htake

/-! ### Failed orders -/

/-- `place_order` does not raise anything but `ExchangeRESTError`. -/
def NotRaised (w : OrderQueueWorker) (i : Input) : Prop :=
  ∀ req, w.stage = .placing req → i ≠ .response .raised

/-- The steps for an order that is not placed. -/
def OfFailed (w : OrderQueueWorker) : Input → Prop
  | .take => True
  | .response (.returned p) => p.status = .rejected
  | .response _ => True
  | .written => w.stage = .reporting
  | _ => False

/-- An order that is not placed leaves the open orders and the reserved notionals. -/
def LeavesBooks (w : OrderQueueWorker) (i : Input) : Prop :=
  OfFailed w i → (step w i).1.openOrders = w.openOrders ∧
    (step w i).1.positionNotional = w.positionNotional

theorem leavesBooks (w : OrderQueueWorker) (i : Input) : LeavesBooks w i := by
  intro h
  have hins : ∀ req p, ¬ Inserts w i req p := by
    rintro req p ⟨rfl, hstage⟩
    rw [OfFailed, hstage] at h
    cases h
  have hfill : ∀ f, i ≠ .fill f := by
    rintro f rfl
    exact h
  have hkeeps := step_keeps hins hfill
  exact ⟨hkeeps.books.openOrders, hkeeps.books.positionNotional⟩

/-- The only way to the end of the loop that is left to a strategy that is not stopped. -/
theorem step_not_ended_iff (hended : w.stage ≠ .ended) (hi : i ≠ .cancel ∧ i ≠ .check true) :
    (step w i).1.stage ≠ .ended ↔ NotRaised w i := by
  have hquiet : i ≠ .response .raised → NotRaised w i := fun h _ _ => h
  cases i with
  | cancel => exact absurd rfl hi.1
  | response r =>
      cases hstage : w.stage with
      | placing req =>
          simp only [step, hstage]
          cases r with
          | raised => exact iff_of_false (fun h => h rfl) (fun h => h req hstage rfl)
          | restError => exact iff_of_true (by simp [placed]) (hquiet (by simp))
          | returned p =>
              refine iff_of_true ?_ (hquiet (by simp))
              simp only [placed]
              cases p.status <;> simp
      | _ =>
          refine iff_of_true ?_ (fun req h => ?_)
          · rw [hstage] at hended
            simp only [step, hstage]
            exact hended
          · rw [hstage] at h
            cases h
  | fill f =>
      refine iff_of_true ?_ (hquiet (by simp))
      rw [show (step w (.fill f)).1.stage = w.stage from (handleFill_loop w f).1]
      exact hended
  | booked k =>
      refine iff_of_true ?_ (hquiet (by simp))
      rw [(step_beside (w := w) (i := .booked k) trivial).1]
      exact hended
  | check stop =>
      refine iff_of_true ?_ (hquiet (by simp))
      cases stop with
      | true => exact absurd rfl hi.2
      | false => cases hstage : w.stage <;> simp_all [step]
  | take =>
      refine iff_of_true ?_ (hquiet (by simp))
      simp only [step]
      split
      · simp only [process]
        split <;> simp
      · exact hended
  | _ =>
      refine iff_of_true ?_ (hquiet (by simp))
      cases hstage : w.stage <;> simp_all [step, insertOpen]

/-- **The worker survives exactly the runs in which `place_order` raises `ExchangeRESTError` only.**
An order that is not placed leaves the books as they were in any run. -/
theorem survives_iff (hended : w.stage ≠ .ended) {is : List Input}
    (his : ∀ i ∈ is, i ≠ .cancel ∧ i ≠ .check true) :
    (final step w is).Survives ∧ Along step LeavesBooks w is ↔ Along step NotRaised w is := by
  have hlost : ∀ (w : OrderQueueWorker) (i : Input), ¬ w.stage ≠ .ended →
      ¬ (step w i).1.stage ≠ .ended := by
    intro w i h
    rw [not_not] at h ⊢
    exact (step_ended h i).1
  rw [survives_iff_not_ended, and_iff_left (along_of_always leavesBooks is w)]
  exact final_iff_along hlost (fun _ _ => step_not_ended_iff) is hended his

/-- An order that is tried to be placed, with the given answer. -/
def tried (r : Response) : List Input :=
  [.post (tenthOrder "MACrossBot" .entry .buy), .check false, .take, .response r]

theorem survives_restError :
    (final step (halfOfThousand "MACrossBot") (tried .restError)).Survives ∧
        Along step LeavesBooks (halfOfThousand "MACrossBot") (tried .restError) ↔
      Along step NotRaised (halfOfThousand "MACrossBot") (tried .restError) :=
  survives_iff (by decide +kernel) (by simp [tried])

theorem not_survives_raised :
    ¬ (final step (halfOfThousand "MACrossBot") (tried .raised)).Survives := by
  rw [survives_iff_not_ended, not_not]
  decide +kernel

end MagnumOpus.Bot.OrderQueueWorker
