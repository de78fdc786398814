import MagnumOpus.Aggregator.Health

/-! # How the service ends

After a signal, or when the startup gate has timed out, `main` waits in `coord.Shutdown` for every
goroutine of the coordinator, and exits.  The goroutines return when the context is done, which the
timer of the gate does not bring about.

* **Timeouts.** When the gate has timed out, the process neither exits nor becomes ready before a
  signal comes (`timed_out_waits`).
* **Exits.** The process exits only after a signal, and leaves no goroutine of the coordinator
  behind (`exited_alone`).
* **Signals.** After a signal, the goroutines come to their end without anything from outside, and
  the process exits with the code of the way it went (`exits_after_signal`). -/

namespace MagnumOpus.Aggregator.Health

open EventMachine PanicProtocol
open SnapshotDispatch (Coordinator CoordinatorInput Fetch advance workerStep)

/-! ### Workers -/

def isCancel : RunInput → Bool
  | .cancel => true
  | _ => false

theorem live_execute (r : Run) (refused : Bool) (task : Task) (line : PanicProtocol.Line)
    (rest : List PanicProtocol.Line) :
    (r.execute refused task line rest).1.live = r.live := by
  unfold Run.execute
  split
  · rfl
  · dsimp only
    split
    · split
      · split <;> rfl
      · rfl
    · rfl

theorem live_finish (r : Run) (task : Task) : (r.finish task).1.live = r.live := by
  unfold Run.finish
  split
  · rfl
  · rfl
  · rfl
  · split <;> rfl

theorem live_goOn (r : Run) (refused : Bool) : (r.goOn refused).1.live = r.live := by
  unfold Run.goOn
  split
  · split
    · rfl
    · exact live_execute ..
  · exact live_finish ..
  · rfl

/-- Nothing but the cancellation ends the context. -/
theorem live_step (r : Run) (e : RunInput) :
    (Run.step r e).1.live = (r.live && !isCancel e) := by
  cases e with
  | cancel => exact (Bool.and_false _).symm
  | goOn refused => exact (live_goOn r refused).trans (Bool.and_true _).symm
  | arrive res k =>
      unfold Run.step
      dsimp only
      split <;> exact (Bool.and_true _).symm
  | tick t now =>
      unfold Run.step
      dsimp only
      split <;> exact (Bool.and_true _).symm
  | result now =>
      unfold Run.step
      dsimp only
      split
      · split <;> exact (Bool.and_true _).symm
      · exact (Bool.and_true _).symm
  | done now =>
      unfold Run.step
      dsimp only
      split <;> exact (Bool.and_true _).symm
  | panics book recon now =>
      unfold Run.step
      dsimp only
      split <;> exact (Bool.and_true _).symm

/-- `Run` has not returned, and is not about to. -/
def Working (r : Run) : Prop :=
  match r.code with
  | .selecting => True
  | .running task _ => task ≠ .handling .done
  | .returned => False

theorem Working.not_returned {r : Run} (h : Working r) : hasReturned r = false := by
  unfold Working at h
  unfold hasReturned
  split
  · next hcode =>
      rw [hcode] at h
      exact h.elim
  · rfl

theorem working_step {r : Run} (e : RunInput) (h : Working r) (hlive : r.live = true) :
    Working (Run.step r e).1 := by
  have hstep := step_stepped r e
  revert hstep
  generalize (Run.step r e).1 = r'
  generalize (Run.step r e).2 = seen
  intro hstep
  unfold Working at h
  cases hstep with
  | idle _ hworker hcode hlive' hch =>
      unfold Working
      rw [hcode]
      exact h
  | took ch input now hcode hch hresult hdone =>
      intro htask
      have hdead := hdone (Task.handling.inj htask)
      rw [hlive] at hdead
      exact absurd hdead (by decide)
  | drained task rest hcode =>
      rw [hcode] at h
      exact h
  | executed task stmt rest effects fetching requests hcode heffects =>
      rw [hcode] at h
      exact h
  | selected task hcode htask => trivial
  | entered hcode hlive' => exact fun htask => by cases htask
  | returned task rest _ hcode htask hrest hcode' hlive' hch =>
      rw [hcode] at h
      rcases htask with htask | hdead
      · exact absurd htask h
      · rw [hlive] at hdead
        exact absurd hdead (by decide)
  | panicked book recon now hin => exact fun htask => by cases htask

/-! ### The coordinator -/

section Coordinators

variable {ι : Type} [DecidableEq ι] {cap : ℕ}

/-- The worker `i` of `c'` has made a step of its own, or none. -/
def Moved (c c' : Coordinator ι) (i : ι) : Prop :=
  c'.workers i = c.workers i ∨
    ∃ e, isCancel e = false ∧ c'.workers i = (Run.step (c.workers i) e).1

theorem moved_advance (c : Coordinator ι) (j : ι) {e : RunInput} (he : isCancel e = false) (i : ι) :
    Moved c (advance c j e).1 i := by
  unfold Moved advance
  by_cases hij : i = j
  · subst hij
    exact .inr ⟨e, he, Function.update_self ..⟩
  · exact .inl (Function.update_of_ne hij ..)

theorem moved_workerStep (c : Coordinator ι) (j : ι) {e : RunInput} (he : isCancel e = false)
    (i : ι) : Moved c (workerStep cap c j e).1 i := by
  unfold workerStep
  split
  · exact moved_advance c j he i
  · split
    · exact moved_advance c j he i
    · exact .inl rfl

theorem moved_step (c : Coordinator ι) {e : CoordinatorInput ι} (he : e ≠ .cancel) (i : ι) :
    Moved c (SnapshotDispatch.step cap c e).1 i := by
  unfold SnapshotDispatch.step
  cases e with
  | cancel => exact absurd rfl he
  | worker j e =>
      cases e with
      | cancel => exact .inl rfl
      | arrive r k => exact .inl rfl
      | _ => exact moved_workerStep c j rfl i
  | dispatch =>
      dsimp only
      split <;> exact .inl rfl
  | fetched f result =>
      dsimp only
      split
      · split
        · exact .inl rfl
        · split <;> exact .inl rfl
      · exact .inl rfl
  | send f =>
      dsimp only
      split
      · exact .inl rfl
      · next r hr =>
          split
          · exact moved_advance c f.worker rfl i
          · exact .inl rfl
  | quit f =>
      dsimp only
      split <;> exact .inl rfl

theorem live_coordinator (c : Coordinator ι) {e : CoordinatorInput ι} (he : e ≠ .cancel) :
    (SnapshotDispatch.step cap c e).1.live = c.live := by
  have hworker : ∀ (j : ι) (e' : RunInput), (workerStep cap c j e').1.live = c.live := by
    intro j e'
    unfold workerStep
    split
    · rfl
    · split <;> rfl
  unfold SnapshotDispatch.step
  cases e with
  | cancel => exact absurd rfl he
  | worker j e =>
      cases e with
      | cancel => rfl
      | arrive r k => rfl
      | _ => exact hworker j _
  | dispatch =>
      dsimp only
      split <;> rfl
  | fetched f result =>
      dsimp only
      split
      · split
        · rfl
        · split <;> rfl
      · rfl
  | send f =>
      dsimp only
      split
      · rfl
      · split <;> rfl
  | quit f =>
      dsimp only
      split <;> rfl

theorem fetches_workerStep (c : Coordinator ι) (i : ι) (e : RunInput) :
    (workerStep cap c i e).1.fetches = c.fetches := by
  unfold workerStep
  split
  · rfl
  · split <;> rfl

/-- Fetches begin with a request that the dispatcher takes. -/
theorem fetches_step {c : Coordinator ι} {e : CoordinatorInput ι} (he : e ≠ .dispatch)
    (hfetches : c.fetches = []) : (SnapshotDispatch.step cap c e).1.fetches = [] := by
  unfold SnapshotDispatch.step
  cases e with
  | cancel => exact hfetches
  | worker j e =>
      cases e with
      | cancel => exact hfetches
      | arrive r k => exact hfetches
      | _ => exact (fetches_workerStep ..).trans hfetches
  | dispatch => exact absurd rfl he
  | fetched f result =>
      dsimp only
      rw [if_neg fun h => List.not_mem_nil (hfetches ▸ h.1)]
      exact hfetches
  | send f =>
      dsimp only
      split
      · exact hfetches
      · rw [if_neg fun h => List.not_mem_nil (hfetches ▸ h.1)]
        exact hfetches
  | quit f =>
      dsimp only
      split
      · exact hfetches
      · rw [hfetches]
        rfl

/-- The workers have the context of the coordinator, and do not return before it is done. -/
structure Attached (c : Coordinator ι) : Prop where
  live : ∀ i, (c.workers i).live = c.live
  working : c.live = true → ∀ i, Working (c.workers i)

theorem Attached.step {c : Coordinator ι} (h : Attached c) (e : CoordinatorInput ι) :
    Attached (SnapshotDispatch.step cap c e).1 := by
  by_cases he : e = .cancel
  · subst he
    exact ⟨fun i => (live_step _ _).trans (Bool.and_false _), fun hlive => by cases hlive⟩
  · have hlive := @live_coordinator _ _ cap c _ he
    constructor
    · intro i
      rw [hlive]
      rcases @moved_step _ _ cap c _ he i with hi | ⟨e', he', hi⟩
      · rw [hi]
        exact h.live i
      · rw [hi, live_step, he', h.live i]
        exact Bool.and_true _
    · intro hc i
      rw [hlive] at hc
      rcases @moved_step _ _ cap c _ he i with hi | ⟨e', he', hi⟩
      · rw [hi]
        exact h.working hc i
      · rw [hi]
        exact working_step e' (h.working hc i) ((h.live i).trans hc)

omit [DecidableEq ι] in
theorem attached_initial (w : ι → Worker) : Attached (SnapshotDispatch.initial w) :=
  ⟨fun _ => rfl, fun _ _ htask => by cases htask⟩

end Coordinators

section Runs

variable {ι : Type} [DecidableEq ι] {cap : ℕ} {s : Service ι}

/-- Before the context is done no worker has returned, nor has the dispatcher, which leaves no fetch
behind, and a gate that has not been passed is not open. -/
structure Kept (s : Service ι) : Prop where
  attached : Attached s.coordinator
  dispatching : s.coordinator.live = true → s.dispatching = true
  idle : s.dispatching = false → s.coordinator.fetches = []
  closed : s.main = .starting ∨ s.main = .stopping 1 → s.startupReady = false

theorem Kept.step (h : Kept s) (e : Event ι) : Kept (Service.step cap s e).1 := by
  obtain ⟨s', more, hstep, hacted⟩ := Service.step_eq cap s e
  rw [hstep]
  cases hacted with
  | kept _ hcoordinator hfeeds hwindow hready hmain hdispatching =>
      refine ⟨?_, fun hlive => ?_, fun hs' => ?_, ?_⟩
      · rw [hcoordinator]
        exact h.attached
      · rw [hcoordinator] at hlive
        rcases hdispatching with hsame | ⟨hdead, -⟩
        · exact hsame.trans (h.dispatching hlive)
        · rw [hlive] at hdead
          exact absurd hdead (by decide)
      · rw [hcoordinator]
        rcases hdispatching with hsame | ⟨-, hfetches⟩
        · exact h.idle (hsame.symm.trans hs')
        · exact hfetches
      · rw [hmain, hready]
        exact h.closed
  | coordinated e henabled =>
      refine ⟨h.attached.step e, fun hlive => h.dispatching ?_, fun hs => ?_, h.closed⟩
      · by_cases he : e = .cancel
        · subst he
          cases hlive
        · rw [← live_coordinator (c := s.coordinator) he]
          exact hlive
      · refine fetches_step (fun he => ?_) (h.idle hs)
        subst he
        cases hs.symm.trans henabled
  | added k => exact ⟨h.attached, h.dispatching, h.idle, h.closed⟩
  | opened hmain hcounts =>
      refine ⟨h.attached, h.dispatching, h.idle, fun hserving => ?_⟩
      rcases hserving with hserving | hserving <;> cases hserving
  | timedOut hmain => exact ⟨h.attached, h.dispatching, h.idle, fun _ => h.closed (.inl hmain)⟩
  | stopped hlive =>
      refine ⟨h.attached, h.dispatching, h.idle, fun hstopped => ?_⟩
      rcases hstopped with hstopped | hstopped <;> cases hstopped
  | exited code hmain hjoined =>
      refine ⟨h.attached, h.dispatching, h.idle, fun hexited => ?_⟩
      rcases hexited with hexited | hexited <;> cases hexited

omit [DecidableEq ι] in
theorem kept_start (w : ι → Worker) (entries : List ι) (fanouts : ℕ) :
    Kept (Service.start w entries fanouts) := by
  refine ⟨attached_initial w, fun _ => rfl, fun hidle => (by cases hidle), fun hmain => ?_⟩
  unfold Service.start at hmain ⊢
  dsimp only at hmain ⊢
  cases entries with
  | nil => rcases hmain with hmain | hmain <;> cases hmain
  | cons i entries => rfl

theorem kept_run (w : ι → Worker) (entries : List ι) (fanouts : ℕ) (es : List (Event ι)) :
    Kept (final (Service.step cap) (Service.start w entries fanouts) es) :=
  final_invariant (fun _ e h => h.step e) es (kept_start w entries fanouts)

omit [DecidableEq ι] in
/-- While the context is not done, `Shutdown` waits. -/
theorem Kept.not_joined (h : Kept s) (hlive : s.coordinator.live = true) : s.joined = false := by
  unfold Service.joined
  rw [h.dispatching hlive]
  rfl

/-- The process stays where the timer of the gate has put it. -/
theorem waits_step (h : Kept s) (e : Event ι) (hmain : s.main = .stopping 1)
    (hlive : s.coordinator.live = true) : (Service.step cap s e).1.main = .stopping 1 := by
  obtain ⟨s', more, hstep, hacted⟩ := Service.step_eq cap s e
  rw [hstep]
  cases hacted with
  | kept _ hcoordinator hfeeds hwindow hready hmain' hdispatching => exact hmain'.trans hmain
  | coordinated e henabled => exact hmain
  | added k => exact hmain
  | opened hstarting hcounts => cases hstarting.symm.trans hmain
  | timedOut hstarting => rfl
  | stopped hdead =>
      rw [hlive] at hdead
      exact absurd hdead (by decide)
  | exited code hstopping hjoined =>
      rw [h.not_joined hlive] at hjoined
      exact absurd hjoined (by decide)

/-- The context does not come back. -/
theorem live_of_step {e : Event ι} (h : (Service.step cap s e).1.coordinator.live = true) :
    s.coordinator.live = true := by
  obtain ⟨s', more, hstep, hacted⟩ := Service.step_eq cap s e
  rw [hstep] at h
  cases hacted with
  | kept _ hcoordinator hfeeds hwindow hready hmain hdispatching => exact hcoordinator ▸ h
  | coordinated e henabled =>
      by_cases he : e = .cancel
      · subst he
        cases h
      · rw [← live_coordinator (c := s.coordinator) he]
        exact h
  | _ => exact h

/-- **Timeouts**: when the startup gate has timed out, then as long as no signal has come the
process has not exited, says that it is starting, and has all its workers at work. -/
theorem timed_out_waits (cap : ℕ) (w : ι → Worker) (entries : List ι) (fanouts : ℕ)
    (es es' : List (Event ι)) (now : ℤ)
    (htimeout :
      (final (Service.step cap) (Service.start w entries fanouts) es).main = .stopping 1) :
    let s := final (Service.step cap) (Service.start w entries fanouts) (es ++ es')
    s.coordinator.live = true →
      s.main = .stopping 1 ∧ (s.handleHealth now).status = "starting" ∧
        ∀ i, hasReturned (s.coordinator.workers i) = false := by
  intro s hlive
  have hkept : Kept s := kept_run w entries fanouts (es ++ es')
  have hstays : Kept s ∧ (s.coordinator.live = true → s.main = .stopping 1) := by
    have hs : s = final (Service.step cap)
        (final (Service.step cap) (Service.start w entries fanouts) es) es' := final_append ..
    rw [hs]
    refine final_invariant
      (I := fun s : Service ι => Kept s ∧ (s.coordinator.live = true → s.main = .stopping 1))
      (fun s e h => ⟨h.1.step e, fun hlive => ?_⟩) es'
      ⟨kept_run w entries fanouts es, fun _ => htimeout⟩
    have hbefore := live_of_step hlive
    exact waits_step h.1 e (h.2 hbefore) hbefore
  have hmain := hstays.2 hlive
  refine ⟨hmain, ?_, fun i => (hkept.attached.working hlive i).not_returned⟩
  have hready := hkept.closed (.inr hmain)
  unfold Service.handleHealth
  dsimp only
  rw [if_pos hready]

theorem waits_without_feed :
    let goOn : Event Unit := .coordinator (.worker () (.goOn false))
    let s := final (Service.step 17)
      (Service.start (fun _ => Worker.new "bybit" "BTC-USDT" false) [()] 3)
      ([.deadline] ++ [goOn, .poll])
    s.main = .stopping 1 ∧ (s.handleHealth 0).status = "starting" ∧
      ∀ i, hasReturned (s.coordinator.workers i) = false :=
  timed_out_waits 17 (fun _ => Worker.new "bybit" "BTC-USDT" false) [()] 3 [.deadline]
    [.coordinator (.worker () (.goOn false)), .poll] 0 rfl rfl

/-! ### Exits -/

/-- `coord.Shutdown` has come to its end, and the code is not that of another way. -/
def Joined (s : Service ι) : Prop :=
  ∀ code, s.main = .exited code → s.joined = true ∧ (code = 1 → s.startupReady = false)

theorem Joined.step (h : Joined s) (hkept : Kept s) (e : Event ι) :
    Joined (Service.step cap s e).1 := by
  by_cases hexited : ∃ code, s.main = .exited code
  · -- a process that has exited does nothing
    obtain ⟨code, hmain⟩ := hexited
    unfold Service.step
    rw [hmain]
    exact h
  · intro code hmain'
    obtain ⟨s', more, hstep, hacted⟩ := Service.step_eq cap s e
    rw [hstep] at hmain' ⊢
    cases hacted with
    | kept _ hcoordinator hfeeds hwindow hready hmain hdispatching =>
        exact absurd ⟨code, hmain.symm.trans hmain'⟩ hexited
    | coordinated e henabled => exact absurd ⟨code, hmain'⟩ hexited
    | added k => exact absurd ⟨code, hmain'⟩ hexited
    | opened hmain hcounts => cases hmain'
    | timedOut hmain => cases hmain'
    | stopped hlive => cases hmain'
    | exited code' hmain hjoined =>
        cases hmain'
        exact ⟨hjoined, fun hone => hkept.closed (.inr (hone ▸ hmain))⟩

/-- **Exits**: when the process has exited, a signal had come, and no goroutine of the coordinator
was left; it has exited with 1 only if it was never ready. -/
theorem exited_alone (cap : ℕ) (w : ι → Worker) (entries : List ι) (fanouts : ℕ)
    (es : List (Event ι)) (code : ℕ) :
    let s := final (Service.step cap) (Service.start w entries fanouts) es
    s.main = .exited code →
      s.coordinator.live = false ∧ s.coordinator.fetches = [] ∧ s.fanouts = 0 ∧
        (∀ i ∈ s.launched, hasReturned (s.coordinator.workers i) = true) ∧
          (code = 1 → s.startupReady = false) := by
  intro s hexited
  have hkept : Kept s ∧ Joined s := by
    refine final_invariant (I := fun s : Service ι => Kept s ∧ Joined s)
      (fun s e h => ⟨h.1.step e, h.2.step h.1 e⟩) es ⟨kept_start w entries fanouts, ?_⟩
    intro code hmain
    unfold Service.start at hmain
    dsimp only at hmain
    split at hmain <;> cases hmain
  obtain ⟨hjoined, hready⟩ := hkept.2 code hexited
  unfold Service.joined at hjoined
  obtain ⟨hended, hworkers⟩ := Bool.and_eq_true_iff.mp hjoined
  obtain ⟨hdispatching, hfanouts⟩ := Bool.and_eq_true_iff.mp hended
  have hidle : s.dispatching = false := Bool.not_eq_true' _ ▸ hdispatching
  refine ⟨?_, hkept.1.idle hidle, eq_of_beq hfanouts, List.all_eq_true.mp hworkers, hready⟩
  refine Bool.eq_false_of_not_eq_true fun hlive => ?_
  rw [hkept.1.dispatching hlive] at hidle
  exact absurd hidle (by decide)

end Runs

/-- A signal comes before the feed is live. -/
def interrupted : List (Event Unit) :=
  let goOn : Event Unit := .coordinator (.worker () (.goOn true))
  [.coordinator .cancel, goOn, goOn, .dispatcherReturns, .fanoutReturns false, .proceed,
    .proceed]

theorem interrupted_alone :
    let s := final (Service.step 17)
      (Service.start (fun _ => Worker.new "bybit" "BTC-USDT" false) [()] 1) interrupted
    s.coordinator.live = false ∧ s.coordinator.fetches = [] ∧ s.fanouts = 0 ∧
      (∀ i ∈ s.launched, hasReturned (s.coordinator.workers i) = true) ∧
        (0 = 1 → s.startupReady = false) :=
  exited_alone 17 (fun _ => Worker.new "bybit" "BTC-USDT" false) [()] 1 interrupted 0
    (by decide +kernel)

/-! ### Workers come to their end -/

/-- What `Run` does when nothing comes from outside. -/
def Winding (e : RunInput) : Prop := e = .goOn true ∨ ∃ now, e = .done now

theorem hasReturned_iff {r : Run} : hasReturned r = true ↔ r.code = .returned := by
  unfold hasReturned
  split
  · next hcode => exact iff_of_true rfl hcode
  · next hcode => exact iff_of_false Bool.false_ne_true hcode

theorem returned_step {r : Run} (e : RunInput) (h : r.code = .returned) :
    (Run.step r e).1.code = .returned := by
  have hstep := step_stepped r e
  revert hstep
  generalize (Run.step r e).1 = r'
  generalize (Run.step r e).2 = seen
  intro hstep
  cases hstep with
  | idle _ hworker hcode hlive hch => exact hcode.trans h
  | took ch input now hcode hch hresult hdone => cases h.symm.trans hcode
  | drained task rest hcode => cases h.symm.trans hcode
  | executed task stmt rest effects fetching requests hcode heffects => cases h.symm.trans hcode
  | selected task hcode htask => cases h.symm.trans hcode
  | entered hcode hlive => cases h.symm.trans hcode
  | returned task rest _ hcode htask hrest hcode' hlive hch => exact hcode'
  | panicked book recon now hin =>
      rw [Run.inLoop, h] at hin
      cases hin

/-- Without the context a line is done, or the last one of `Run`. -/
theorem execute_refused (r : Run) (task : Task) (line : PanicProtocol.Line)
    (rest : List PanicProtocol.Line) :
    (r.execute true task line rest).1.code = .running task rest ∨
      (r.execute true task line rest).1.code = .returned := by
  unfold Run.execute
  split
  · exact .inl rfl
  · dsimp only
    split
    · rw [if_pos rfl]
      split
      · exact .inr rfl
      · exact .inl rfl
    · exact .inl rfl

/-- A task comes to its end. -/
theorem task_ends : ∀ (rest : List PanicProtocol.Line) {r : Run} {task : Task},
    r.code = .running task rest → r.live = false → ∃ n,
      (final Run.step r (List.replicate n (.goOn true))).live = false ∧
        ((final Run.step r (List.replicate n (.goOn true))).code = .returned ∨
          task ≠ .handling .done ∧
            (final Run.step r (List.replicate n (.goOn true))).code = .selecting)
  | [], r, task, hcode, hlive => by
      have hstep : Run.step r (.goOn true) = r.finish task := by
        simp only [Run.step, Run.goOn, hcode]
      refine ⟨1, ?_⟩
      rw [List.replicate_one, final_cons, final_nil, hstep]
      refine ⟨(live_finish r task).trans hlive, ?_⟩
      cases task with
      | entering => exact .inr ⟨fun h => (by cases h), rfl⟩
      | handling input =>
          cases input with
          | done => exact .inl rfl
          | tick t => exact .inr ⟨fun h => (by cases h), rfl⟩
          | snapshot res k => exact .inr ⟨fun h => (by cases h), rfl⟩
      | recovering =>
          unfold Run.finish
          rw [hlive]
          exact .inl rfl
  | line :: rest, r, task, hcode, hlive => by
      have hstep : Run.step r (.goOn true) = r.execute true task line rest := by
        simp only [Run.step, Run.goOn, hcode, hlive, Bool.false_eq_true, and_false, if_false]
      have hlive' := (live_execute r true task line rest).trans hlive
      rcases execute_refused r task line rest with hnext | hreturned
      · obtain ⟨n, hn⟩ := task_ends rest hnext hlive'
        refine ⟨n + 1, ?_⟩
        rw [List.replicate_succ, final_cons, hstep]
        exact hn
      · refine ⟨1, ?_⟩
        rw [List.replicate_one, final_cons, final_nil, hstep]
        exact ⟨hlive', .inl hreturned⟩

/-- A worker without its context returns. -/
theorem worker_ends {r : Run} (hlive : r.live = false) :
    ∃ inputs : List RunInput, (∀ e ∈ inputs, Winding e) ∧
      hasReturned (final Run.step r inputs) = true := by
  have hgoOn : ∀ n, ∀ e ∈ List.replicate n (RunInput.goOn true), Winding e :=
    fun n e he => .inl (List.eq_of_mem_replicate he)
  -- a worker that waits takes the end of the context, and handles it
  have hselecting : ∀ {r : Run}, r.code = .selecting → r.live = false →
      ∃ inputs : List RunInput, (∀ e ∈ inputs, Winding e) ∧
        hasReturned (final Run.step r inputs) = true := by
    intro r hcode hlive
    have hstep : Run.step r (.done 0) = r.handle .done 0 := by
      simp only [Run.step, Run.selecting, hcode, hlive, and_self, if_true]
    obtain ⟨n, -, hend⟩ := task_ends _ (r := (r.handle .done 0).1) rfl hlive
    refine ⟨.done 0 :: List.replicate n (.goOn true), ?_, ?_⟩
    · exact List.forall_mem_cons.mpr ⟨.inr ⟨0, rfl⟩, hgoOn n⟩
    · rw [final_cons, hstep, hasReturned_iff]
      exact hend.resolve_right fun h => h.1 rfl
  cases hcode : r.code with
  | selecting => exact hselecting hcode hlive
  | returned => exact ⟨[], fun _ he => (by cases he), hasReturned_iff.mpr hcode⟩
  | running task rest =>
      obtain ⟨n, hlive', hend⟩ := task_ends rest hcode hlive
      rcases hend with hreturned | ⟨-, hwaits⟩
      · exact ⟨_, hgoOn n, hasReturned_iff.mpr hreturned⟩
      · obtain ⟨inputs, hinputs, hend⟩ := hselecting hwaits hlive'
        refine ⟨List.replicate n (.goOn true) ++ inputs, fun e he => ?_, ?_⟩
        · exact (List.mem_append.mp he).elim (hgoOn n e) (hinputs e)
        · rw [final_append]
          exact hend

/-- Nobody takes a request any more. -/
theorem requests_goOn (r : Run) : (r.goOn true).1.requests = r.requests := by
  unfold Run.goOn
  split
  · next task line rest hcode =>
      split
      · rfl
      · unfold Run.execute
        split
        · rfl
        · dsimp only
          split
          · rw [if_pos rfl]
            split <;> rfl
          · rfl
  · unfold Run.finish
    split
    · rfl
    · rfl
    · rfl
    · split <;> rfl
  · rfl

theorem requests_winding {e : RunInput} (he : Winding e) (r : Run) :
    (Run.step r e).1.requests = r.requests := by
  rcases he with rfl | ⟨now, rfl⟩
  · exact requests_goOn r
  · unfold Run.step
    dsimp only
    split <;> rfl

/-! ### The service comes to its end -/

section Stops

variable {ι : Type} [DecidableEq ι] {cap code : ℕ} {s s' : Service ι}

/-- What the goroutines of the coordinator do when nothing comes from outside. -/
def Closing : Event ι → Prop
  | .coordinator (.worker _ e) => Winding e
  | .coordinator (.quit _) => True
  | .dispatcherReturns => True
  | .fanoutReturns closed => closed = false
  | _ => False

/-- The context is done, and `main` waits. -/
structure Ending (code : ℕ) (s : Service ι) : Prop where
  dead : ∀ i, (s.coordinator.workers i).live = false
  live : s.coordinator.live = false
  main : s.main = .stopping code

/-- No more is there to wait for than before. -/
structure Shrinks (s s' : Service ι) : Prop where
  launched : s'.launched = s.launched
  returned : ∀ i, hasReturned (s.coordinator.workers i) = true →
    hasReturned (s'.coordinator.workers i) = true
  fetches : s'.coordinator.fetches ⊆ s.coordinator.fetches
  dispatching : s.dispatching = false → s'.dispatching = false
  fanouts : s'.fanouts ≤ s.fanouts

omit [DecidableEq ι] in
theorem Shrinks.rfl : Shrinks s s :=
  ⟨Eq.refl _, fun _ => id, List.Subset.refl _, id, Nat.le_refl _⟩

omit [DecidableEq ι] in
theorem Shrinks.trans {s'' : Service ι} (h : Shrinks s s') (h' : Shrinks s' s'') :
    Shrinks s s'' :=
  ⟨h'.launched.trans h.launched, fun i => h'.returned i ∘ h.returned i,
    List.Subset.trans h'.fetches h.fetches, h'.dispatching ∘ h.dispatching,
    Nat.le_trans h'.fanouts h.fanouts⟩

theorem Ending.act (h : Ending code s) (e : Event ι) : Service.step cap s e = s.act cap e := by
  unfold Service.step
  rw [h.main]

/-- A step of a worker or of a fetch. -/
theorem Ending.coordinator (h : Ending code s) {e : CoordinatorInput ι} (he : e ≠ .cancel)
    (hfetches : (SnapshotDispatch.step cap s.coordinator e).1.fetches ⊆ s.coordinator.fetches) :
    Ending code (Service.step cap s (.coordinator e)).1 ∧
      Shrinks s (Service.step cap s (.coordinator e)).1 := by
  rw [h.act]
  unfold Service.act Service.coordinate
  dsimp only
  split
  · have hmoved := @moved_step _ _ cap s.coordinator _ he
    refine ⟨⟨fun i => ?_, (live_coordinator _ he).trans h.live, h.main⟩,
      ⟨Eq.refl _, fun i hi => ?_, hfetches, id, Nat.le_refl _⟩⟩
    · rcases hmoved i with hi | ⟨e', he', hi⟩
      · exact (congrArg Run.live hi).trans (h.dead i)
      · refine (congrArg Run.live hi).trans ((live_step _ e').trans ?_)
        rw [h.dead i]
        exact Bool.false_and _
    · rcases hmoved i with hsame | ⟨e', he', hnext⟩
      · exact (congrArg hasReturned hsame).trans hi
      · refine (congrArg hasReturned hnext).trans (hasReturned_iff.mpr ?_)
        exact returned_step e' (hasReturned_iff.mp hi)
  · exact ⟨h, .rfl⟩

variable (cap) in
theorem Ending.step (h : Ending code s) {e : Event ι} (he : Closing e) :
    Ending code (Service.step cap s e).1 ∧ Shrinks s (Service.step cap s e).1 := by
  cases e with
  | coordinator e =>
      cases e with
      | worker i e =>
          refine h.coordinator (fun h => by cases h) fun f hf => ?_
          rcases he with rfl | ⟨now, rfl⟩
          · exact fetches_workerStep s.coordinator i _ ▸ hf
          · exact fetches_workerStep s.coordinator i _ ▸ hf
      | quit f =>
          refine h.coordinator (fun h => by cases h) ?_
          unfold SnapshotDispatch.step
          rw [h.live]
          exact List.erase_subset
      | _ => exact he.elim
  | dispatcherReturns =>
      rw [h.act]
      unfold Service.act Service.dispatcherReturns
      dsimp only
      split
      · exact ⟨⟨h.dead, h.live, h.main⟩,
          ⟨Eq.refl _, fun _ => id, List.Subset.refl _, fun _ => Eq.refl _, Nat.le_refl _⟩⟩
      · exact ⟨h, .rfl⟩
  | fanoutReturns closed =>
      rw [h.act]
      unfold Service.act Service.fanoutReturns
      dsimp only
      rw [if_neg fun hlive => Bool.false_ne_true (h.live.symm.trans hlive.1)]
      exact ⟨⟨h.dead, h.live, h.main⟩,
        ⟨Eq.refl _, fun _ => id, List.Subset.refl _, id, Nat.sub_le ..⟩⟩
  | _ => exact he.elim

variable (cap) in
theorem Ending.run : ∀ (es : List (Event ι)) {s : Service ι}, Ending code s →
    (∀ e ∈ es, Closing e) →
      Ending code (final (Service.step cap) s es) ∧ Shrinks s (final (Service.step cap) s es)
  | [], _, h, _ => ⟨h, .rfl⟩
  | _ :: es, _, h, he => by
      obtain ⟨hstep, hless⟩ := h.step cap (he _ List.mem_cons_self)
      obtain ⟨hrun, hless'⟩ := Ending.run es hstep fun e hes => he e (List.mem_cons_of_mem _ hes)
      exact ⟨hrun, hless.trans hless'⟩

/-! ### One goroutine after another -/

theorem workers_step (h : Ending code s) {i : ι} (hi : i ∈ s.launched) {e : RunInput}
    (he : Winding e) :
    (Service.step cap s (.coordinator (.worker i e))).1.coordinator.workers i =
      (Run.step (s.coordinator.workers i) e).1 := by
  have hstep : SnapshotDispatch.step cap s.coordinator (.worker i e) =
      advance s.coordinator i e := by
    have hrequests := requests_winding he (s.coordinator.workers i)
    rcases he with rfl | ⟨now, rfl⟩
    · exact if_pos hrequests
    · exact if_pos hrequests
  rw [h.act]
  unfold Service.act Service.coordinate
  dsimp only
  rw [if_pos (show s.enabled (.worker i e) = true from decide_eq_true hi), hstep]
  exact Function.update_self ..

theorem workers_run {i : ι} : ∀ (inputs : List RunInput) {s : Service ι}, Ending code s →
    i ∈ s.launched → (∀ e ∈ inputs, Winding e) →
      (final (Service.step cap) s (inputs.map fun e => .coordinator (.worker i e))
        ).coordinator.workers i = final Run.step (s.coordinator.workers i) inputs
  | [], _, _, _, _ => Eq.refl _
  | e :: inputs, s, h, hi, he => by
      have hwinding := he e List.mem_cons_self
      obtain ⟨hending, hless⟩ := h.step cap (e := .coordinator (.worker i e)) hwinding
      rw [List.map_cons, final_cons, final_cons, ← workers_step h hi hwinding]
      refine workers_run inputs hending ?_ fun e' he' => he e' (List.mem_cons_of_mem _ he')
      rw [hless.launched]
      exact hi

variable (cap) in
theorem workers_end (h : Ending code s) : ∀ js : List ι, js ⊆ s.launched →
    ∃ es : List (Event ι), (∀ e ∈ es, Closing e) ∧ ∀ i ∈ js,
      hasReturned ((final (Service.step cap) s es).coordinator.workers i) = true
  | [], _ => ⟨[], fun _ he => (by cases he), fun _ hi => (by cases hi)⟩
  | i :: js, hjs => by
      obtain ⟨hi, hjs⟩ := List.cons_subset.mp hjs
      obtain ⟨es, hes, hreturned⟩ := workers_end h js hjs
      obtain ⟨hending, hless⟩ := h.run cap es hes
      obtain ⟨inputs, hinputs, hend⟩ := worker_ends (hending.dead i)
      have hclosing : ∀ e ∈ inputs.map fun e => Event.coordinator (.worker i e), Closing e := by
        intro e he
        obtain ⟨e', he', heq⟩ := List.mem_map.mp he
        rw [← heq]
        exact hinputs e' he'
      refine ⟨es ++ inputs.map fun e => .coordinator (.worker i e), ?_, ?_⟩
      · exact fun e he => (List.mem_append.mp he).elim (hes e) (hclosing e)
      · intro j hj
        rw [final_append]
        rcases List.mem_cons.mp hj with hij | hj
        · rw [hij, workers_run inputs hending (hless.launched ▸ hi) hinputs]
          exact hend
        · exact (hending.run cap _ hclosing).2.returned j (hreturned j hj)

variable (cap) in
theorem fetches_end : ∀ (fs : List (Fetch ι)) {s : Service ι}, Ending code s →
    s.coordinator.fetches = fs →
      ∃ es : List (Event ι), (∀ e ∈ es, Closing e) ∧
        (final (Service.step cap) s es).coordinator.fetches = []
  | [], _, _, hfs => ⟨[], fun _ he => (by cases he), hfs⟩
  | f :: fs, s, h, hfs => by
      obtain ⟨hending, -⟩ := h.step cap (e := .coordinator (.quit f)) trivial
      have hquit : (Service.step cap s (.coordinator (.quit f))).1.coordinator.fetches = fs := by
        rw [h.act]
        unfold Service.act Service.coordinate Service.enabled SnapshotDispatch.step
        dsimp only
        rw [h.live, hfs]
        exact List.erase_cons_head ..
      obtain ⟨es, hes, hnone⟩ := fetches_end fs hending hquit
      exact ⟨.coordinator (.quit f) :: es, List.forall_mem_cons.mpr ⟨trivial, hes⟩, hnone⟩

theorem dispatcher_ends (h : Ending code s) (hfetches : s.coordinator.fetches = []) :
    (Service.step cap s .dispatcherReturns).1.dispatching = false := by
  rw [h.act]
  unfold Service.act Service.dispatcherReturns
  dsimp only
  rw [if_pos ⟨h.live, hfetches⟩]

variable (cap) in
theorem fanouts_end : ∀ (n : ℕ) {s : Service ι}, Ending code s → s.fanouts = n →
    ∃ es : List (Event ι), (∀ e ∈ es, Closing e) ∧ (final (Service.step cap) s es).fanouts = 0
  | 0, _, _, hn => ⟨[], fun _ he => (by cases he), hn⟩
  | n + 1, s, h, hn => by
      obtain ⟨hending, -⟩ := h.step cap (e := .fanoutReturns false) rfl
      have hreturns : (Service.step cap s (.fanoutReturns false)).1.fanouts = n := by
        rw [h.act]
        unfold Service.act Service.fanoutReturns
        dsimp only
        rw [h.live, hn]
        rfl
      obtain ⟨es, hes, hnone⟩ := fanouts_end n hending hreturns
      exact ⟨.fanoutReturns false :: es, List.forall_mem_cons.mpr ⟨rfl, hes⟩, hnone⟩

variable (cap) in
/-- `coord.Shutdown` comes to its end. -/
theorem Ending.joins (h : Ending code s) : ∃ es : List (Event ι), (∀ e ∈ es, Closing e) ∧
    (final (Service.step cap) s es).joined = true := by
  obtain ⟨es₁, hes₁, hreturned⟩ := workers_end cap h s.launched (List.Subset.refl _)
  obtain ⟨h₁, hless₁⟩ := h.run cap es₁ hes₁
  obtain ⟨es₂, hes₂, hfetches⟩ := fetches_end cap _ h₁ rfl
  obtain ⟨h₂, hless₂⟩ := h₁.run cap es₂ hes₂
  have hdispatching := @dispatcher_ends _ _ cap _ _ h₂ hfetches
  obtain ⟨h₃, hless₃⟩ := h₂.step cap (e := .dispatcherReturns) trivial
  obtain ⟨es₄, hes₄, hfanouts⟩ := fanouts_end cap _ h₃ rfl
  obtain ⟨-, hless₄⟩ := h₃.run cap es₄ hes₄
  have hless := (hless₂.trans hless₃).trans hless₄
  refine ⟨es₁ ++ (es₂ ++ .dispatcherReturns :: es₄), ?_, ?_⟩
  · exact List.forall_mem_append.mpr
      ⟨hes₁, List.forall_mem_append.mpr ⟨hes₂, List.forall_mem_cons.mpr ⟨trivial, hes₄⟩⟩⟩
  · rw [final_append, final_append, final_cons]
    unfold Service.joined
    rw [hless₄.dispatching hdispatching, hfanouts, hless.launched, hless₁.launched]
    exact List.all_eq_true.mpr fun i hi => hless.returned i (hreturned i hi)

/-! ### The process exits -/

/-- What the process exits with from here. -/
def exitCode : Main → ℕ
  | .starting => 0
  | .serving => 0
  | .stopping code => code
  | .exited code => code

variable (cap) in
theorem Ending.exits (h : Ending code s) : ∃ es : List (Event ι),
    (∀ e ∈ es, Closing e ∨ e = .proceed) ∧
      (final (Service.step cap) s es).main = .exited code := by
  obtain ⟨es, hes, hjoined⟩ := h.joins cap
  obtain ⟨hending, -⟩ := h.run cap es hes
  refine ⟨es ++ [.proceed], ?_, ?_⟩
  · exact List.forall_mem_append.mpr
      ⟨fun e he => .inl (hes e he), List.forall_mem_singleton.mpr (.inr rfl)⟩
  · rw [final_append, final_cons, final_nil, hending.act]
    unfold Service.act Service.proceed
    dsimp only
    rw [hending.main]
    dsimp only
    rw [if_pos hjoined]

/-- **Signals**: when a signal has come, the goroutines come to their end without anything from
outside, and the process exits, with 1 if the startup gate has timed out. -/
theorem exits_after_signal (cap : ℕ) (w : ι → Worker) (entries : List ι) (fanouts : ℕ)
    (es : List (Event ι)) :
    let s := final (Service.step cap) (Service.start w entries fanouts) es
    s.coordinator.live = false →
      ∃ es' : List (Event ι), (∀ e ∈ es', Closing e ∨ e = .proceed) ∧
        (final (Service.step cap) s es').main = .exited (exitCode s.main) := by
  intro s hlive
  have hkept : Kept s := kept_run w entries fanouts es
  have hdead : ∀ i, (s.coordinator.workers i).live = false :=
    fun i => (hkept.attached.live i).trans hlive
  -- from `starting` and `serving`, `main` goes on to `coord.Shutdown`
  have hproceeds : ∀ hrun : s.main = .starting ∨ s.main = .serving,
      Ending 0 (Service.step cap s .proceed).1 := by
    intro hrun
    have hstep : Service.step cap s .proceed = ({ s with main := .stopping 0 }, []) := by
      unfold Service.step Service.act Service.proceed
      dsimp only
      rcases hrun with hmain | hmain
      · rw [hmain, hlive]
        rfl
      · rw [hmain, hlive]
        rfl
    rw [hstep]
    exact ⟨hdead, hlive, rfl⟩
  have hexits : s.main = .starting ∨ s.main = .serving → ∃ es' : List (Event ι),
      (∀ e ∈ es', Closing e ∨ e = .proceed) ∧
        (final (Service.step cap) s es').main = .exited 0 := by
    intro hrun
    obtain ⟨es', hes', hexited⟩ := (hproceeds hrun).exits cap
    exact ⟨.proceed :: es', List.forall_mem_cons.mpr ⟨.inr rfl, hes'⟩, hexited⟩
  cases hmain : s.main with
  | starting => exact hexits (.inl hmain)
  | serving => exact hexits (.inr hmain)
  | stopping code => exact Ending.exits cap ⟨hdead, hlive, hmain⟩
  | exited code => exact ⟨[], fun _ he => (by cases he), hmain⟩

end Stops

/-- The gate times out, and then a signal comes. -/
theorem timed_out_stops :
    let s := final (Service.step 17)
      (Service.start (fun _ => Worker.new "bybit" "BTC-USDT" false) [()] 3)
      [.deadline, .coordinator .cancel]
    ∃ es : List (Event Unit), (∀ e ∈ es, Closing e ∨ e = .proceed) ∧
      (final (Service.step 17) s es).main = .exited 1 :=
  exits_after_signal 17 (fun _ => Worker.new "bybit" "BTC-USDT" false) [()] 3
    [.deadline, .coordinator .cancel] rfl

end MagnumOpus.Aggregator.Health
