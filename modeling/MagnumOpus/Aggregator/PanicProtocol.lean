import MagnumOpus.Aggregator.WorkerSteps

/-! # Panics in a worker

`Worker.Run` one statement after the other, with the context, the result channel and the snapshot
requests that have not been answered yet.  A panic strikes in front of any statement of the loop and
of the handlers, or inside of one that updates the book or the reconnect machine; a result arrives
at any time, also for a request from before a panic.

* **Code.** The handlers are those of the worker (`body`); what is left of one is the rest of its
  statements (`Code.running`).
* **Recovery.** `recovery` is the worker's, with the result channel drained in the middle of it
  (`statements_recovery`).
* **The protocol.** `Protocol`: what a recovery writes and asks for (`recovery_trace`), the silence
  after it (`Awaiting`), and the book at each `WriteSnapshot` (`Sound`), in every run
  (`panic_protocol`). -/

namespace MagnumOpus.Aggregator.PanicProtocol

open EventMachine Reconnect

/-! ### Code -/

inductive Line where
  | work (stmt : Stmt Worker Effect)
  /-- Drops a result that has arrived. -/
  | drain

/-- The statements that are about the worker itself. -/
def statements : List Line → Worker.Body
  | [] => []
  | .work stmt :: rest => stmt :: statements rest
  | .drain :: rest => statements rest

inductive Task where
  | entering
  | handling (input : Input)
  | recovering

/-- Where `Run` is. -/
inductive Code where
  | selecting
  | running (task : Task) (rest : List Line)
  | returned

structure Run where
  worker : Worker
  /-- The context has not been cancelled. -/
  live : Bool := true
  /-- A result, with the number of its request. -/
  resultCh : Option (SnapshotResult × ℕ) := none
  /-- The requests without a result. -/
  fetching : List ℕ := []
  requests : ℕ := 0
  code : Code

inductive RunInput where
  | cancel
  /-- The dispatcher sends the result of a request. -/
  | arrive (r : SnapshotResult) (k : ℕ)
  | tick (t : Tick) (now : Int64)
  | result (now : Int64)
  | done (now : Int64)
  /-- `Run` goes on; the dispatcher may not take a request any more. -/
  | goOn (refused : Bool)
  /-- A panic; inside of a statement it may leave the book and the machine anyhow. -/
  | panics (book : OrderBook) (recon : Machine) (now : Int64)

inductive RunOutput where
  | took (input : Input)
  | did (e : Effect)
  | panicked
  | returned

/-- Something the worker does. -/
def RunOutput.isEffect : RunOutput → Bool
  | .did _ => true
  | _ => false

def isRequest : Effect → Bool
  | .requestSnapshot _ _ _ => true
  | _ => false

def isSnapshot : Effect → Bool
  | .streamSnapshot _ _ _ _ => true
  | _ => false

/-- The entry of the loop. -/
def entry (w : Worker) : Worker.Body :=
  if w.recon.state = .initial then
    [Worker.needsSnapshotNow "initial", Worker.requestSnapshot ⟨"initial"⟩]
  else []

/-- What `Run` does after a panic. -/
def recovery (now : Int64) (w : Worker) : List Line :=
  (Worker.writeGap (w.mergeErrorGap now)).map .work ++
  [.work (Worker.update fun w => { w with lastSeq := 0 }),
   .work (Worker.update fun w => { w with lastMsgSeqEnd := 0 }),
   .drain,
   .work (Worker.needsSnapshotNow "panic"),
   .work (Worker.requestSnapshot ⟨"panic"⟩)]

namespace Run

/-! ### Steps -/

def start (w : Worker) : Run where
  worker := w
  code := .running .entering ((entry w).map .work)

def selecting (s : Run) : Bool :=
  match s.code with
  | .selecting => true
  | _ => false

/-- A panic would be recovered. -/
def inLoop (s : Run) : Bool :=
  match s.code with
  | .selecting => true
  | .running .recovering _ => false
  | .running _ _ => true
  | .returned => false

def handle (s : Run) (input : Input) (now : Int64) : Run × List RunOutput :=
  ({ s with
     code := .running (.handling input) ((Worker.body { input, now } s.worker).map .work) },
    [.took input])

/-- One statement. -/
def execute (s : Run) (refused : Bool) (task : Task) (line : Line) (rest : List Line) :
    Run × List RunOutput :=
  match line with
  | .drain => ({ s with resultCh := none, code := .running task rest }, [])
  | .work stmt =>
      let r := stmt s.worker
      let s' := { s with worker := r.1, code := .running task rest }
      if r.2.any isRequest then
        if refused then
          match task with
          -- Only the entry of the loop heeds the error.
          | .entering => ({ s' with code := .returned }, [.returned])
          | _ => (s', (r.2.filter (!isRequest ·)).map .did)
        else
          ({ s' with fetching := s.requests :: s.fetching, requests := s.requests + 1 },
            r.2.map .did)
      else (s', r.2.map .did)

/-- The end of a task. -/
def finish (s : Run) : Task → Run × List RunOutput
  | .entering => ({ s with code := .selecting }, [])
  | .handling .done => ({ s with code := .returned }, [.returned])
  | .handling _ => ({ s with code := .selecting }, [])
  | .recovering =>
      if s.live then
        ({ s with code := .running .entering ((entry s.worker).map .work) }, [])
      else ({ s with code := .returned }, [.returned])

def goOn (s : Run) (refused : Bool) : Run × List RunOutput :=
  match s.code with
  | .running task (line :: rest) =>
      if refused = true ∧ s.live = true then (s, []) else s.execute refused task line rest
  | .running task [] => s.finish task
  | _ => (s, [])

def recover (s : Run) (book : OrderBook) (recon : Machine) (now : Int64) : Run × List RunOutput :=
  let w := { s.worker with book, recon }
  ({ s with worker := w, code := .running .recovering (recovery now w) }, [.panicked])

def step : Step Run RunInput RunOutput := fun s e =>
  match e with
  | .cancel => ({ s with live := false }, [])
  | .arrive r k =>
      (if k ∈ s.fetching ∧ s.resultCh.isNone = true then
        { s with resultCh := some (r, k), fetching := s.fetching.erase k }
      else s, [])
  | .tick t now => if s.selecting then s.handle (.tick t) now else (s, [])
  | .result now =>
      match s.resultCh with
      | some (r, k) =>
          if s.selecting then { s with resultCh := none }.handle (.snapshot r k) now else (s, [])
      | none => (s, [])
  | .done now => if s.selecting = true ∧ s.live = false then s.handle .done now else (s, [])
  | .goOn refused => s.goOn refused
  | .panics book recon now => if s.inLoop then s.recover book recon now else (s, [])

end Run

open Run

/-! ### The protocol -/

structure Protocol (w : Worker) (es : List RunInput) : Prop where
  /-- From a panic to what comes after its recovery there is one marker on each of the stream and
  ILP; a request follows, unless the context is done and `Run` returns. -/
  recovers : ∀ pre mid o post,
    trace step (start w) es = pre ++ .panicked :: (mid.map .did ++ o :: post) →
    o.isEffect = false → ∃ exch sym g, g.cause = .internalMergeError ∧
      (mid = [.streamGap exch sym g, .ilpGap exch sym g, .requestSnapshot exch sym ⟨"panic"⟩] ∨
        mid = [.streamGap exch sym g, .ilpGap exch sym g] ∧ o = .returned)
  /-- No tick is written between a panic and the next `WriteSnapshot`. -/
  quiet : ∀ pre mid t post,
    trace step (start w) es = pre ++ .panicked :: (mid ++ .did (.streamWrite t) :: post) →
    ∃ exch sym seq ts, .did (.streamSnapshot exch sym seq ts) ∈ mid
  /-- A `WriteSnapshot` finds the book exactly as the snapshot of its number, which has arrived. -/
  exact : ∀ e exch sym seq ts,
    .did (.streamSnapshot exch sym seq ts) ∈ (step (final step (start w) es) e).2 →
    ∃ r k, .arrive r k ∈ es ∧ r.seq = seq ∧ (final step (start w) es).worker.book = r.book
  /-- `Run` returns when the context is done only. -/
  returns : ∀ e, .returned ∈ (step (final step (start w) es) e).2 →
    (final step (start w) es).live = false
  /-- A recovery comes to its end. -/
  ends : ∃ n, ∀ rest, (final step (final step (start w) es) (List.replicate n (.goOn false))).code ≠
    .running .recovering rest

/-! ### What a step does -/

theorem statements_map : ∀ body : Worker.Body, statements (body.map .work) = body
  | [] => rfl
  | _ :: body => congrArg _ (statements_map body)

theorem statements_recovery (now : Int64) (w : Worker) :
    statements (recovery now w) = Worker.recovery now w := rfl

/-- The cases of a step. -/
inductive Stepped (s : Run) (e : RunInput) : Run → List RunOutput → Prop
  /-- The worker does nothing. -/
  | idle (s' : Run) (hworker : s'.worker = s.worker) (hcode : s'.code = s.code)
      (hlive : s.live = false → s'.live = false)
      (hch : ∀ r k, s'.resultCh = some (r, k) → s.resultCh = some (r, k) ∨ e = .arrive r k) :
      Stepped s e s' []
  | took (ch : Option (SnapshotResult × ℕ)) (input : Input) (now : Int64)
      (hcode : s.code = .selecting) (hch : ∀ r k, ch = some (r, k) → s.resultCh = some (r, k))
      (hresult : ∀ r k, input = .snapshot r k → s.resultCh = some (r, k))
      (hdone : input = .done → s.live = false) :
      Stepped s e ({ s with resultCh := ch }.handle input now).1 [.took input]
  | drained (task : Task) (rest : List Line) (hcode : s.code = .running task (.drain :: rest)) :
      Stepped s e { s with resultCh := none, code := .running task rest } []
  | executed (task : Task) (stmt : Stmt Worker Effect) (rest : List Line) (effects : List Effect)
      (fetching : List ℕ) (requests : ℕ) (hcode : s.code = .running task (.work stmt :: rest))
      (heffects : effects = (stmt s.worker).2 ∨
        s.live = false ∧ effects = (stmt s.worker).2.filter (!isRequest ·)) :
      Stepped s e
        { s with worker := (stmt s.worker).1, fetching, requests, code := .running task rest }
        (effects.map .did)
  | selected (task : Task) (hcode : s.code = .running task []) (htask : task ≠ .recovering) :
      Stepped s e { s with code := .selecting } []
  | entered (hcode : s.code = .running .recovering []) (hlive : s.live = true) :
      Stepped s e { s with code := .running .entering ((entry s.worker).map .work) } []
  | returned (task : Task) (rest : List Line) (s' : Run) (hcode : s.code = .running task rest)
      (htask : task = .handling .done ∨ s.live = false)
      (hrest : task = .recovering → rest = []) (hcode' : s'.code = .returned)
      (hlive : s'.live = s.live) (hch : s'.resultCh = s.resultCh) : Stepped s e s' [.returned]
  | panicked (book : OrderBook) (recon : Machine) (now : Int64) (hin : s.inLoop = true) :
      Stepped s e (s.recover book recon now).1 [.panicked]

/-- Nothing has changed. -/
theorem Stepped.same {s : Run} {e : RunInput} : Stepped s e s [] :=
  .idle s rfl rfl id fun _ _ => .inl

theorem selecting_iff {s : Run} : s.selecting = true ↔ s.code = .selecting := by
  unfold selecting
  split <;> simp_all

theorem execute_stepped {s : Run} {e : RunInput} {refused : Bool} {task : Task} {line : Line}
    {rest : List Line} (hcode : s.code = .running task (line :: rest))
    (hlive : refused = true → s.live = false) :
    Stepped s e (s.execute refused task line rest).1 (s.execute refused task line rest).2 := by
  cases line with
  | drain => exact .drained task rest hcode
  | work stmt =>
      by_cases hrequest : (stmt s.worker).2.any isRequest = true
      · cases refused with
        | false =>
            simp only [execute, hrequest, if_true, Bool.false_eq_true, if_false]
            exact .executed task stmt rest _ _ _ hcode (.inl rfl)
        | true =>
            simp only [execute, hrequest, if_true]
            cases task with
            | entering =>
                exact .returned .entering _ _ hcode (.inr (hlive rfl)) (fun h => by cases h)
                  rfl rfl rfl
            | handling input => exact .executed _ stmt rest _ _ _ hcode (.inr ⟨hlive rfl, rfl⟩)
            | recovering => exact .executed _ stmt rest _ _ _ hcode (.inr ⟨hlive rfl, rfl⟩)
      · simp only [execute, if_neg hrequest]
        exact .executed task stmt rest _ _ _ hcode (.inl rfl)

theorem finish_stepped {s : Run} {e : RunInput} {task : Task}
    (hcode : s.code = .running task []) : Stepped s e (s.finish task).1 (s.finish task).2 := by
  cases task with
  | entering => exact .selected _ hcode (by simp)
  | handling input =>
      cases input with
      | done => exact .returned _ _ _ hcode (.inl rfl) (fun h => by cases h) rfl rfl rfl
      | tick t => exact .selected _ hcode (by simp)
      | snapshot r k => exact .selected _ hcode (by simp)
  | recovering =>
      by_cases hlive : s.live = true
      · simp only [finish, if_pos hlive]
        exact .entered hcode hlive
      · simp only [finish, if_neg hlive]
        exact .returned _ _ _ hcode (.inr (by simpa using hlive)) (fun _ => rfl) rfl rfl rfl

theorem step_stepped (s : Run) (e : RunInput) : Stepped s e (step s e).1 (step s e).2 := by
  cases e with
  | cancel => exact .idle _ rfl rfl (fun _ => rfl) fun _ _ => .inl
  | arrive r k =>
      simp only [step]
      split
      · refine .idle _ rfl rfl id fun r' k' h => ?_
        cases h
        exact .inr rfl
      · exact .same
  | tick t now =>
      simp only [step]
      split
      · next hs =>
          exact .took s.resultCh (.tick t) now (selecting_iff.mp hs) (fun _ _ => id)
            (fun _ _ h => by cases h) fun h => by cases h
      · exact .same
  | result now =>
      cases hch : s.resultCh with
      | none =>
          simp only [step, hch]
          exact .same
      | some result =>
          obtain ⟨r, k⟩ := result
          simp only [step, hch]
          split
          · next hs =>
              refine .took none (.snapshot r k) now (selecting_iff.mp hs) (fun _ _ h => by cases h)
                (fun r' k' h => ?_) fun h => by cases h
              cases h
              exact hch
          · exact .same
  | done now =>
      simp only [step]
      split
      · next hs =>
          exact .took s.resultCh .done now (selecting_iff.mp hs.1) (fun _ _ => id)
            (fun _ _ h => by cases h) fun _ => hs.2
      · exact .same
  | goOn refused =>
      simp only [step, goOn]
      split
      · next task line rest hcode =>
          split
          · exact .same
          · next hrefused =>
              refine execute_stepped hcode fun h => ?_
              simpa using fun hlive => hrefused ⟨h, hlive⟩
      · next task hcode => exact finish_stepped hcode
      · exact .same
  | panics book recon now =>
      simp only [step]
      split
      · next hin => exact .panicked book recon now hin
      · exact .same

/-! ### Recoveries -/

section Recoveries

variable {s : Run} {es : List RunInput} {mid : List Effect} {o : RunOutput} {post : List RunOutput}

/-- What is seen first is not an effect. -/
theorem did_append_cons {effects : List Effect} {trace : List RunOutput}
    (h : effects.map RunOutput.did ++ trace = mid.map .did ++ o :: post)
    (ho : o.isEffect = false) :
    ∃ mid', mid = effects ++ mid' ∧ trace = mid'.map .did ++ o :: post := by
  induction effects generalizing mid with
  | nil => exact ⟨mid, rfl, h⟩
  | cons effect effects ih =>
      cases mid with
      | nil =>
          obtain ⟨rfl, -⟩ := List.cons_eq_cons.mp h
          cases ho
      | cons effect' mid =>
          obtain ⟨heffect, hrest⟩ := List.cons_eq_cons.mp h
          cases heffect
          obtain ⟨mid', rfl, htrace⟩ := ih hrest
          exact ⟨mid', rfl, htrace⟩

theorem eq_nil_of_cons {o' : RunOutput} {trace : List RunOutput}
    (h : o' :: trace = mid.map .did ++ o :: post) (ho' : o'.isEffect = false) :
    mid = [] ∧ o' = o := by
  cases mid with
  | nil => exact ⟨rfl, (List.cons_eq_cons.mp h).1⟩
  | cons effect mid =>
      obtain ⟨rfl, -⟩ := List.cons_eq_cons.mp h
      cases ho'

/-- A worker that waits does nothing before something else is seen. -/
theorem selecting_trace (hcode : s.code = .selecting ∨ s.code = .running .entering [])
    (h : trace step s es = mid.map .did ++ o :: post) : mid = [] := by
  induction es generalizing s with
  | nil => exact absurd h.symm (by simp)
  | cons e es ih =>
      rw [trace_cons] at h
      have hstep := step_stepped s e
      revert h hstep
      generalize (step s e).1 = s'
      generalize (step s e).2 = seen
      intro h hstep
      cases hstep with
      | idle _ hworker hcode' hlive hch =>
          rw [← hcode'] at hcode
          exact ih hcode h
      | took ch input now hselecting hch hresult hdone => exact (eq_nil_of_cons h rfl).1
      | drained task rest hcode' => rcases hcode with hcode | hcode <;> cases hcode.symm.trans hcode'
      | executed task stmt rest effects fetching requests hcode' heffects =>
          rcases hcode with hcode | hcode <;> cases hcode.symm.trans hcode'
      | selected task hcode' htask => exact ih (.inl rfl) h
      | entered hcode' hlive => rcases hcode with hcode | hcode <;> cases hcode.symm.trans hcode'
      | returned task rest _ hcode' htask hrest hcode'' hlive hch => exact (eq_nil_of_cons h rfl).1
      | panicked book recon now hin => exact (eq_nil_of_cons h rfl).1

/-- A recovery does what is left of it, before anything else is seen; it may leave out the request
when the context is done, and then returns. -/
theorem recovery_trace {rest : List Line} (h : trace step s es = mid.map .did ++ o :: post)
    (ho : o.isEffect = false) (hcode : s.code = .running .recovering rest)
    (hbuffering : (exec (statements rest) s.worker).1.recon.state = .buffering) :
    mid.Sublist (exec (statements rest) s.worker).2 ∧
      mid.filter (!isRequest ·) = (exec (statements rest) s.worker).2.filter (!isRequest ·) ∧
      (s.live = false → o = .returned) ∧
      (mid = (exec (statements rest) s.worker).2 ∨ o = .returned) := by
  induction es generalizing s rest mid with
  | nil => exact absurd h.symm (by simp)
  | cons e es ih =>
      rw [trace_cons] at h
      have hstep := step_stepped s e
      revert h hstep
      generalize (step s e).1 = s'
      generalize (step s e).2 = seen
      intro h hstep
      cases hstep with
      | idle _ hworker hcode' hlive hch =>
          rw [← hworker] at hbuffering ⊢
          obtain ⟨hsublist, hfilter, hdead, hall⟩ := ih h (hcode'.trans hcode) hbuffering
          exact ⟨hsublist, hfilter, fun hlive' => hdead (hlive hlive'), hall⟩
      | took ch input now hselecting hch hresult hdone => cases hcode.symm.trans hselecting
      | drained task rest' hcode' =>
          cases hcode.symm.trans hcode'
          have hrest := ih h rfl hbuffering
          exact hrest
      | executed task stmt rest' effects fetching requests hcode' heffects =>
          cases hcode.symm.trans hcode'
          obtain ⟨mid', rfl, htrace⟩ := did_append_cons h ho
          obtain ⟨hsublist, hfilter, hdead, hall⟩ := ih htrace rfl hbuffering
          rw [statements, exec_cons]
          rcases heffects with rfl | ⟨hlive, rfl⟩
          · refine ⟨hsublist.append_left _, ?_, hdead, hall.imp (congrArg _) id⟩
            rw [List.filter_append, hfilter, List.filter_append]
          · refine ⟨List.filter_sublist.append hsublist, ?_, hdead, .inr (hdead hlive)⟩
            rw [List.filter_append, hfilter, List.filter_append, List.filter_filter]
            simp only [Bool.and_self]
      | selected task hcode' htask =>
          cases hcode.symm.trans hcode'
          exact absurd rfl htask
      | entered hcode' hlive =>
          cases hcode.symm.trans hcode'
          have hentry : entry s.worker = [] := by
            have hstate : s.worker.recon.state = .buffering := hbuffering
            simp only [entry, hstate, reduceCtorEq, if_false]
          have hmid : mid = [] := by
            refine selecting_trace (.inr ?_) h
            rw [hentry]
            rfl
          subst hmid
          exact ⟨.refl _, rfl, fun hdead => (by cases hlive.symm.trans hdead), .inl rfl⟩
      | returned task rest' _ hcode' htask hrest hcode'' hlive hch =>
          cases hcode.symm.trans hcode'
          cases hrest rfl
          obtain ⟨rfl, rfl⟩ := eq_nil_of_cons h rfl
          exact ⟨.refl _, rfl, fun _ => rfl, .inl rfl⟩
      | panicked book recon now hin =>
          rw [inLoop, hcode] at hin
          cases hin

end Recoveries

theorem recovery_ends : ∀ (rest : List Line) {s : Run}, s.code = .running .recovering rest →
    ∃ n, ∀ rest', (final step s (List.replicate n (.goOn false))).code ≠ .running .recovering rest'
  | [], s, hcode => by
      have hstep : step s (.goOn false) = s.finish .recovering := by simp only [step, goOn, hcode]
      refine ⟨1, fun rest' hcode' => ?_⟩
      rw [List.replicate_one, final_cons, final_nil, hstep, finish] at hcode'
      split at hcode' <;> cases hcode'
  | line :: rest, s, hcode => by
      have hstep : step s (.goOn false) = s.execute false .recovering line rest := by
        simp only [step, goOn, hcode, Bool.false_eq_true, false_and, if_false]
      have hnext : (s.execute false .recovering line rest).1.code = .running .recovering rest := by
        cases line with
        | drain => rfl
        | work stmt =>
            simp only [execute, Bool.false_eq_true, if_false]
            split <;> rfl
      obtain ⟨n, hn⟩ := recovery_ends rest hnext
      refine ⟨n + 1, fun rest' => ?_⟩
      rw [List.replicate_succ, final_cons, hstep]
      exact hn rest'

/-! ### Silence -/

/-- A program writes no tick, and writes a snapshot or leaves the worker buffering. -/
def Quiet (body : Worker.Body) (w : Worker) : Prop :=
  (∀ t, .streamWrite t ∉ (exec body w).2) ∧
    ((exec body w).2.any isSnapshot = true ∨ (exec body w).1.recon.state = .buffering)

/-- There has been a panic, and no `WriteSnapshot` after it. -/
def Awaiting (s : Run) : Prop :=
  match s.code with
  | .selecting => s.worker.recon.state = .buffering
  | .running _ rest => Quiet (statements rest) s.worker
  | .returned => True

theorem quiet_body {w : Worker} (hw : w.recon.state = .buffering) (input : Input) (now : Int64) :
    Quiet (Worker.body { input, now } w) w := by
  cases input with
  | tick t =>
      by_cases ht : t.type = .trade
      · simp only [Quiet, Worker.body, Worker.exec_handleTick_trade ht, hw]
        simp
      · simp only [Quiet, Worker.body, Worker.exec_handleTick_buffered ht hw]
        simp [hw]
  | snapshot r k =>
      cases hstale : w.recon.stale r.seq with
      | true =>
          simp only [Quiet, Worker.body, Worker.exec_handleSnapshot_stale hw hstale]
          simp [hw]
      | false =>
          simp only [Quiet, Worker.body, Worker.exec_handleSnapshot_merged hw hstale]
          simp [isSnapshot]
  | done =>
      simp only [Quiet, Worker.body, Worker.exec_handleDone, hw]
      simp

theorem quiet_recovery (now : Int64) (v w : Worker) : Quiet (Worker.recovery now v) w := by
  rw [Quiet, Worker.exec_recovery]
  simp

/-- Before the next `WriteSnapshot` no tick is written. -/
theorem awaiting_stepped {s s' : Run} {e : RunInput} {seen : List RunOutput}
    (hstep : Stepped s e s' seen) (h : Awaiting s) :
    (∀ t, .did (.streamWrite t) ∉ seen) ∧
      ((∃ f, isSnapshot f = true ∧ .did f ∈ seen) ∨ Awaiting s') := by
  cases hstep with
  | idle _ hworker hcode hlive hch =>
      refine ⟨fun _ => List.not_mem_nil, .inr ?_⟩
      rwa [Awaiting, hcode, hworker]
  | took ch input now hcode hch hresult hdone =>
      rw [Awaiting, hcode] at h
      refine ⟨by simp, .inr ?_⟩
      have hquiet := quiet_body h input now
      rw [← statements_map (Worker.body _ _)] at hquiet
      exact hquiet
  | drained task rest hcode =>
      rw [Awaiting, hcode] at h
      exact ⟨fun _ => List.not_mem_nil, .inr h⟩
  | executed task stmt rest effects fetching requests hcode heffects =>
      rw [Awaiting, hcode] at h
      obtain ⟨hwrites, hend⟩ := h
      rw [statements, exec_cons] at hwrites hend
      have hsub : ∀ f ∈ effects, f ∈ (stmt s.worker).2 := by
        rcases heffects with rfl | ⟨-, rfl⟩
        · exact fun _ => id
        · exact fun _ => List.mem_of_mem_filter
      refine ⟨?_, ?_⟩
      · intro t hmem
        obtain ⟨f, hf, heq⟩ := List.mem_map.mp hmem
        cases heq
        exact hwrites t (List.mem_append_left _ (hsub _ hf))
      · by_cases hany : (stmt s.worker).2.any isSnapshot = true
        · obtain ⟨f, hf, hsnapshot⟩ := List.any_eq_true.mp hany
          refine .inl ⟨f, hsnapshot, List.mem_map_of_mem ?_⟩
          rcases heffects with rfl | ⟨-, rfl⟩
          · exact hf
          · refine List.mem_filter.mpr ⟨hf, ?_⟩
            cases f <;> first | rfl | cases hsnapshot
        · refine .inr ⟨fun t hmem => hwrites t (List.mem_append_right _ hmem), ?_⟩
          rw [List.any_append, Bool.or_eq_true] at hend
          exact hend.imp (fun h => h.resolve_left hany) id
  | selected task hcode htask =>
      rw [Awaiting, hcode] at h
      refine ⟨fun _ => List.not_mem_nil, .inr (h.2.resolve_left ?_)⟩
      simp [statements]
  | entered hcode hlive =>
      rw [Awaiting, hcode] at h
      have hstate : s.worker.recon.state = .buffering := h.2.resolve_left (by simp [statements])
      refine ⟨fun _ => List.not_mem_nil, .inr ?_⟩
      have hentry : entry s.worker = [] := by simp only [entry, hstate, reduceCtorEq, if_false]
      rw [hentry]
      exact h
  | returned task rest _ hcode htask hrest hcode' hlive hch =>
      refine ⟨by simp, .inr ?_⟩
      rw [Awaiting, hcode']
      trivial
  | panicked book recon now hin => exact ⟨by simp, .inr (quiet_recovery _ _ _)⟩

theorem awaiting_run {s : Run} : ∀ (es : List RunInput), Awaiting s →
    (∃ f, isSnapshot f = true ∧ .did f ∈ trace step s es) ∨ Awaiting (final step s es)
  | [], h => .inr h
  | e :: es, h => by
      rcases (awaiting_stepped (step_stepped s e) h).2 with ⟨f, hf, hmem⟩ | h
      · exact .inl ⟨f, hf, List.mem_append_left _ hmem⟩
      · exact (awaiting_run es h).imp
          (fun ⟨f, hf, hmem⟩ => ⟨f, hf, List.mem_append_right _ hmem⟩) id

/-! ### Books -/

section Books

variable {A : SnapshotResult → ℕ → Prop} {s s' : Run} {e : RunInput} {seen : List RunOutput}
  {w : Worker}

/-- A statement that writes a snapshot finds the book of one that has arrived. -/
def Carries (A : SnapshotResult → ℕ → Prop) (w : Worker) (stmt : Stmt Worker Effect) : Prop :=
  ∀ exch sym seq ts, .streamSnapshot exch sym seq ts ∈ (stmt w).2 →
    ∃ r k, A r k ∧ r.seq = seq ∧ w.book = r.book

/-- All the statements of a program do. -/
def CarriesAll (A : SnapshotResult → ℕ → Prop) (w : Worker) (body : Worker.Body) : Prop :=
  Along (fun w (stmt : Stmt Worker Effect) => stmt w) (Carries A) w body

structure Sound (A : SnapshotResult → ℕ → Prop) (s : Run) : Prop where
  arrived : ∀ r k, s.resultCh = some (r, k) → A r k
  carries : ∀ task rest, s.code = .running task rest → CarriesAll A s.worker (statements rest)
  done : ∀ rest, s.code = .running (.handling .done) rest → s.live = false

theorem carriesAll_of_silent : ∀ {body : Worker.Body} {w : Worker},
    (∀ f ∈ (exec body w).2, isSnapshot f = false) → CarriesAll A w body
  | [], _, _ => trivial
  | stmt :: body, w, h => by
      rw [exec_cons, List.forall_mem_append] at h
      refine ⟨fun exch sym seq ts hmem => ?_, carriesAll_of_silent h.2⟩
      cases h.1 _ hmem

theorem carriesAll_handleTick (t : Tick) (now : Int64) :
    CarriesAll A w (Worker.handleTick t now w) := by
  refine carriesAll_of_silent ?_
  by_cases ht : t.type = .trade
  · rw [Worker.exec_handleTick_trade ht]
    split <;> simp [isSnapshot]
  · by_cases hs : w.recon.state = .buffering
    · rw [Worker.exec_handleTick_buffered ht hs]
      simp
    · rw [Worker.exec_handleTick hs ht]
      have hgap : ∀ f ∈ w.gapEffects t now, isSnapshot f = false := by
        unfold Worker.gapEffects
        split <;> simp [isSnapshot]
      have hpublish : ∀ f ∈ w.publishEffects t, isSnapshot f = false := by
        unfold Worker.publishEffects
        split <;> simp [isSnapshot]
      refine List.forall_mem_append.mpr ⟨hgap, ?_⟩
      by_cases hu : t.type = .update
      · simp only [hu, if_true, List.cons_append, List.nil_append, List.forall_mem_cons]
        exact ⟨rfl, rfl, rfl, hpublish⟩
      · simp only [hu, if_false, List.nil_append]
        simp [isSnapshot]

/-- The book is the snapshot's from the first statement on. -/
theorem carriesAll_handleSnapshot {r : SnapshotResult} {k : ℕ} (hr : A r k) (now : Int64) :
    CarriesAll A w (Worker.handleSnapshot r now w) := by
  by_cases hs : w.recon.state = .buffering
  · cases hstale : w.recon.stale r.seq with
    | true =>
        refine carriesAll_of_silent ?_
        rw [Worker.exec_handleSnapshot_stale hs hstale]
        simp [isSnapshot]
    | false =>
        have hm := Machine.mergeSnapshot_of_not_stale hs hstale
        simp only [Worker.handleSnapshot, hs, ne_eq, not_true_eq_false, if_false, hm]
        refine ⟨?_, ?_, ?_, ?_, ?_, ?_, trivial⟩
        all_goals intro exch sym seq ts hmem
        · cases hmem
        · cases hmem
        · cases hmem
        · cases hmem
        · cases hmem
        · rw [List.mem_singleton] at hmem
          cases hmem
          exact ⟨r, k, hr, rfl, rfl⟩
  · refine carriesAll_of_silent ?_
    rw [Worker.exec_handleSnapshot_unexpected hs]
    simp

theorem carriesAll_body {input : Input} (hinput : ∀ r k, input = .snapshot r k → A r k)
    (now : Int64) : CarriesAll A w (Worker.body { input, now } w) := by
  cases input with
  | tick t => exact carriesAll_handleTick t now
  | snapshot r k => exact carriesAll_handleSnapshot (hinput r k rfl) now
  | done =>
      refine carriesAll_of_silent ?_
      simp only [Worker.body, Worker.exec_handleDone]
      split <;> simp [isSnapshot]

theorem carriesAll_entry : CarriesAll A w (entry w) := by
  refine carriesAll_of_silent ?_
  unfold entry
  split
  · simp [Worker.needsSnapshotNow, Worker.update, Worker.requestSnapshot, isSnapshot]
  · simp

theorem carriesAll_recovery (now : Int64) (v : Worker) :
    CarriesAll A w (Worker.recovery now v) := by
  refine carriesAll_of_silent ?_
  rw [Worker.exec_recovery]
  simp [isSnapshot]

theorem sound_stepped (hstep : Stepped s e s' seen) (h : Sound A s)
    (hA : ∀ r k, e = .arrive r k → A r k) : Sound A s' := by
  cases hstep with
  | idle _ hworker hcode hlive hch =>
      refine ⟨?_, ?_, ?_⟩
      · intro r k hresult
        exact (hch r k hresult).elim (h.arrived r k) (hA r k)
      · rw [hworker, hcode]
        exact h.carries
      · intro rest hdone
        exact hlive (h.done rest (hcode.symm.trans hdone))
  | took ch input now hcode hch hresult hdone =>
      refine ⟨fun r k hr => h.arrived r k (hch r k hr), ?_, ?_⟩
      · intro task rest hrunning
        cases hrunning
        rw [statements_map]
        exact carriesAll_body (fun r k hr => h.arrived r k (hresult r k hr)) now
      · intro rest hrunning
        cases hrunning
        exact hdone rfl
  | drained task rest hcode =>
      refine ⟨fun r k hr => (by cases hr), ?_, ?_⟩
      · intro task' rest' hrunning
        cases hrunning
        have hrest := h.carries _ _ hcode
        exact hrest
      · intro rest' hrunning
        cases hrunning
        exact h.done _ hcode
  | executed task stmt rest effects fetching requests hcode heffects =>
      refine ⟨h.arrived, ?_, ?_⟩
      · intro task' rest' hrunning
        cases hrunning
        exact (h.carries _ _ hcode).2
      · intro rest' hrunning
        cases hrunning
        exact h.done _ hcode
  | selected task hcode htask =>
      exact ⟨h.arrived, fun _ _ hrunning => (by cases hrunning),
        fun _ hrunning => by cases hrunning⟩
  | entered hcode hlive =>
      refine ⟨h.arrived, ?_, fun _ hrunning => by cases hrunning⟩
      intro task rest hrunning
      cases hrunning
      rw [statements_map]
      exact carriesAll_entry
  | returned task rest _ hcode htask hrest hcode' hlive hch =>
      refine ⟨fun r k hr => h.arrived r k (hch ▸ hr), ?_, ?_⟩
      · exact fun _ _ hrunning => by cases hcode'.symm.trans hrunning
      · exact fun _ hrunning => by cases hcode'.symm.trans hrunning
  | panicked book recon now hin =>
      refine ⟨h.arrived, ?_, fun _ hrunning => by cases hrunning⟩
      intro task rest hrunning
      cases hrunning
      exact carriesAll_recovery _ _

theorem sound_start : Sound A (start w) := by
  refine ⟨fun _ _ h => (by cases h), ?_, fun _ hrunning => by cases hrunning⟩
  intro task rest hrunning
  cases hrunning
  rw [statements_map]
  exact carriesAll_entry

theorem sound_run (w : Worker) (es : List RunInput) :
    Sound (fun r k => .arrive r k ∈ es) (final step (start w) es) := by
  refine final_invariant_along (I := Sound fun r k => .arrive r k ∈ es)
    (fun s e h hA => sound_stepped (step_stepped s e) h hA) es sound_start ?_
  exact along_of_forall fun e he r k hr => hr ▸ he

/-- What a step writes as a snapshot is the book. -/
theorem snapshot_stepped {exch : String} {sym : Symbol} {seq : UInt64} {ts : Int64}
    (hstep : Stepped s e s' seen) (h : Sound A s)
    (hmem : .did (.streamSnapshot exch sym seq ts) ∈ seen) :
    ∃ r k, A r k ∧ r.seq = seq ∧ s.worker.book = r.book := by
  cases hstep with
  | executed task stmt rest effects fetching requests hcode heffects =>
      obtain ⟨f, hf, heq⟩ := List.mem_map.mp hmem
      cases heq
      refine (h.carries _ _ hcode).1 exch sym seq ts ?_
      rcases heffects with rfl | ⟨-, rfl⟩
      · exact hf
      · exact List.mem_of_mem_filter hf
  | took => cases List.mem_singleton.mp hmem
  | returned => cases List.mem_singleton.mp hmem
  | panicked => cases List.mem_singleton.mp hmem
  | _ => cases hmem

theorem returned_stepped (hstep : Stepped s e s' seen) (h : Sound A s) (hmem : .returned ∈ seen) :
    s.live = false := by
  cases hstep with
  | executed task stmt rest effects fetching requests hcode heffects =>
      obtain ⟨f, -, heq⟩ := List.mem_map.mp hmem
      cases heq
  | returned task rest _ hcode htask hrest hcode' hlive hch =>
      rcases htask with rfl | hdead
      · exact h.done rest hcode
      · exact hdead
  | took => cases List.mem_singleton.mp hmem
  | panicked => cases List.mem_singleton.mp hmem
  | _ => cases hmem

end Books

/-! ### Every run -/

theorem panicked_stepped {s s' : Run} {e : RunInput} {seen us vs : List RunOutput}
    (hstep : Stepped s e s' seen) (hseen : seen = us ++ .panicked :: vs) :
    us = [] ∧ vs = [] ∧ ∃ book recon now, s' = (s.recover book recon now).1 := by
  have hmem : RunOutput.panicked ∈ seen := by
    rw [hseen]
    exact List.mem_append_right _ List.mem_cons_self
  cases hstep with
  | executed task stmt rest effects fetching requests hcode heffects =>
      obtain ⟨f, -, heq⟩ := List.mem_map.mp hmem
      cases heq
  | panicked book recon now hin =>
      cases us with
      | nil =>
          obtain ⟨-, rfl⟩ := List.cons_eq_cons.mp hseen
          exact ⟨rfl, rfl, book, recon, now, rfl⟩
      | cons o us =>
          obtain ⟨-, hnil⟩ := List.cons_eq_cons.mp hseen
          exact absurd hnil.symm (by simp)
  | took => cases List.mem_singleton.mp hmem
  | returned => cases List.mem_singleton.mp hmem
  | _ => cases hmem

/-- What is seen after a panic is seen of a recovery. -/
theorem trace_panicked {w : Worker} {es : List RunInput} {pre post : List RunOutput}
    (h : trace step (start w) es = pre ++ .panicked :: post) :
    ∃ s es' now v, s.code = .running .recovering (recovery now v) ∧ trace step s es' = post := by
  obtain ⟨es₁, e, es₂, us, vs, -, hseen, -, rfl⟩ := trace_eq_append_cons h
  obtain ⟨-, rfl, book, recon, now, hs⟩ := panicked_stepped (step_stepped _ e) hseen
  exact ⟨_, es₂, now, _, by rw [hs]; rfl, rfl⟩

/-- A part of three effects that leaves out at most the last one. -/
theorem eq_of_sublist {mid : List Effect} {a b c : Effect} (ha : isRequest a = false)
    (hb : isRequest b = false) (hc : isRequest c = true) (hsub : mid.Sublist [a, b, c])
    (hfilter : mid.filter (!isRequest ·) = [a, b, c].filter (!isRequest ·)) :
    mid = [a, b, c] ∨ mid = [a, b] := by
  have habc : [a, b, c].filter (!isRequest ·) = [a, b] := by simp [ha, hb, hc]
  rw [habc] at hfilter
  have hmid : [a, b].Sublist mid := hfilter ▸ List.filter_sublist
  have hlength := hsub.length_le
  rcases Nat.lt_or_ge mid.length 3 with hlt | hge
  · have hle := hmid.length_le
    exact .inr (hmid.eq_of_length (by simp at *; omega)).symm
  · exact .inl (hsub.eq_of_length (by simp at *; omega))

/-- Panics, results of older requests and the end of the context may come at any time. -/
theorem panic_protocol (w : Worker) (es : List RunInput) : Protocol w es where
  recovers pre mid o post htrace ho := by
    obtain ⟨s, es', now, v, hcode, hpost⟩ := trace_panicked htrace
    have hrecovery := statements_recovery now v
    have hexec := Worker.exec_recovery now v s.worker
    obtain ⟨hsub, hfilter, -, hall⟩ := recovery_trace hpost ho hcode (by rw [hrecovery, hexec])
    rw [hrecovery, hexec] at hsub hfilter hall
    refine ⟨s.worker.exch, s.worker.sym, v.mergeErrorGap now, rfl, ?_⟩
    rcases eq_of_sublist rfl rfl rfl hsub hfilter with hmid | hmid
    · exact .inl hmid
    · refine .inr ⟨hmid, hall.resolve_left fun h => ?_⟩
      cases hmid.symm.trans h
  quiet pre mid t post htrace := by
    obtain ⟨s, es', now, v, hcode, hpost⟩ := trace_panicked htrace
    have hawaiting : Awaiting s := by
      rw [Awaiting, hcode]
      exact quiet_recovery now v s.worker
    obtain ⟨es₁, e, es₂, us, vs, -, hseen, rfl, -⟩ := trace_eq_append_cons hpost
    rcases awaiting_run es₁ hawaiting with ⟨f, hf, hmem⟩ | hawaiting
    · cases f <;> first | exact ⟨_, _, _, _, List.mem_append_left _ hmem⟩ | cases hf
    · refine absurd ?_ ((awaiting_stepped (step_stepped _ e) hawaiting).1 t)
      rw [hseen]
      exact List.mem_append_right _ List.mem_cons_self
  exact e exch sym seq ts hmem := snapshot_stepped (step_stepped _ e) (sound_run w es) hmem
  returns e hmem := returned_stepped (step_stepped _ e) (sound_run w es) hmem
  ends := by
    cases hcode : (final step (start w) es).code with
    | running task rest =>
        cases task with
        | recovering => exact recovery_ends rest hcode
        | _ => exact ⟨0, fun rest' h => by cases hcode.symm.trans h⟩
    | _ => exact ⟨0, fun rest' h => by cases hcode.symm.trans h⟩

/-- The loop asks for a snapshot and panics; the result of that request comes in only after the
recovery has asked for another one, and makes the worker live. -/
example (r : SnapshotResult) :
    trace step (start (Worker.new "kucoin" "BTC-USDT" false))
      (List.replicate 3 (.goOn false) ++ [.panics .new ⟨.buffering, []⟩ 0] ++
        List.replicate 9 (.goOn false) ++ [.arrive r 0, .result 0] ++
        List.replicate 7 (.goOn false)) =
    let gap : GapEvent := ⟨.internalMergeError, 0, 1, 0⟩
    [.did (.requestSnapshot "kucoin" "BTC-USDT" ⟨"initial"⟩), .panicked,
      .did (.streamGap "kucoin" "BTC-USDT" gap), .did (.ilpGap "kucoin" "BTC-USDT" gap),
      .did (.requestSnapshot "kucoin" "BTC-USDT" ⟨"panic"⟩), .took (.snapshot r 0),
      .did (.streamSnapshot "kucoin" "BTC-USDT" r.seq 0)] := rfl

end MagnumOpus.Aggregator.PanicProtocol
